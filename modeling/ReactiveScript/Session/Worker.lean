import ReactiveScript.Session.Command

/-!
# Working off requests

A `Worker` has a session to itself and carries out the requests of many clients one at a time, in the
order in which they came.  A rerun first waits until it is not debounced; the reruns from the same
origin that stand directly behind it by then join it, later values winning, and all who asked for one
of them get the same answer.  The first other request behind them has been taken off the queue by
then, and is kept aside to be carried out next.

Requests may come and time may pass between any two steps of the worker.

* `Worker.step` — take a request, let another one join it, or carry out what has been taken.
* `Worker.drain` — step until nothing is left to do, waiting where that is what there is to do; every
  step leaves less (`pending_lt_of_step`).
-/

set_option autoImplicit false

namespace ReactiveScript

/-- A request in the queue. -/
structure Request where
  /-- What is asked for. -/
  command : Command
  /-- Under which number the client waits for an answer, if it waits. -/
  ticket : Option Nat

/-- The answer to a request. -/
structure Answered where
  /-- The number of the request. -/
  ticket : Nat
  /-- The answer. -/
  answer : Except SessionError Answer

/-! ## Batches of changes -/

/-- Reruns from one origin that are carried out together. -/
structure Batch where
  /-- The observer that the changes come from. -/
  origin : Option ObserverId
  /-- The changes. -/
  changes : Table UnitId Value
  /-- Who waits for the answer. -/
  tickets : List Nat

namespace Batch

/-- The rerun that the batch stands for. -/
def command (b : Batch) : Command := .rerun b.origin b.changes

/-- A batch with the changes of another request, if that is a rerun from the same origin. -/
def join? (b : Batch) (r : Request) : Option Batch :=
  match r.command with
  | .rerun origin changes =>
    if origin = b.origin then
      some { b with changes := Table.merge b.changes changes
                    tickets := b.tickets ++ r.ticket.toList }
    else none
  | _ => none

end Batch

/-! ## The worker -/

/-- What a worker is about to do. -/
inductive Stage where
  /-- It takes the next request. -/
  | idle
  /-- It waits until a batch may be carried out, if that is not at once. -/
  | waiting (b : Batch) (due : Option Instant)
  /-- It lets reruns in the queue join a batch. -/
  | joining (b : Batch)
  /-- It carries out a command, for whose answer clients wait. -/
  | ready (c : Command) (tickets : List Nat)
  /-- It does nothing any more. -/
  | finished

/-- How many steps are left at most, if nothing else is taken up. -/
def Stage.pending : Stage → Nat
  | .waiting _ _ => 4
  | .joining _ => 3
  | .ready _ _ => 2
  | .idle => 1
  | .finished => 0

/-- A session with the requests to it. -/
structure Worker where
  /-- The session. -/
  session : Session
  /-- The time. -/
  now : Instant
  /-- Whether no more requests will come. -/
  closed : Bool
  /-- The requests that have not been looked at, first come first. -/
  queue : List Request
  /-- Requests that were taken off the queue and not carried out yet. -/
  backlog : List Request
  /-- What is to be done next. -/
  stage : Stage
  /-- The answers given so far, oldest first. -/
  answers : List Answered

namespace Worker

/-- A worker without requests. -/
def ofSession (s : Session) : Worker := ⟨s, ⟨0⟩, false, [], [], .idle, []⟩

/-- Queue a request. -/
def submit (r : Request) (w : Worker) : Worker := { w with queue := w.queue ++ [r] }

/-- No more requests will come. -/
def close (w : Worker) : Worker := { w with closed := true }

/-- The answer to a request. -/
def answer? (ticket : Nat) (w : Worker) : Option (Except SessionError Answer) :=
  (w.answers.find? fun a => a.ticket == ticket).map Answered.answer

/-- Take up a request.  A rerun waits until it is not debounced. -/
def take (r : Request) (w : Worker) : Worker :=
  match r.command with
  | .rerun origin changes =>
    { w with stage := .waiting ⟨origin, changes, r.ticket.toList⟩ w.session.nextRerunAt }
  | c => { w with stage := .ready c r.ticket.toList }

/-- Let the first request in the queue join a batch.  If there is none, or another one, the batch is
carried out. -/
def join (b : Batch) (w : Worker) : Worker :=
  match w.queue with
  | [] => { w with stage := .ready b.command b.tickets }
  | r :: rest =>
    match b.join? r with
    | some b => { w with queue := rest, stage := .joining b }
    | none =>
      { w with queue := rest, backlog := w.backlog ++ [r], stage := .ready b.command b.tickets }

/-- Carry out a command, and give everybody who waits for it the answer. -/
def perform (c : Command) (tickets : List Nat) (w : Worker) : Worker :=
  let (reply, session) := w.session.perform w.now c
  { w with session, stage := .idle
           answers := w.answers ++ tickets.map fun t => ⟨t, reply.settle⟩ }

/-- Do the next thing, if there is one that does not have to wait. -/
def step (w : Worker) : Option Worker :=
  match w.stage with
  | .idle =>
    match w.backlog, w.queue with
    | r :: rest, _ => some ({ w with backlog := rest }.take r)
    | [], r :: rest => some ({ w with queue := rest }.take r)
    | [], [] => if w.closed then some { w with stage := .finished } else none
  | .waiting b due =>
    if due.all fun t => decide (t.nanos ≤ w.now.nanos) then some { w with stage := .joining b }
    else none
  | .joining b => some (w.join b)
  | .ready c tickets => some (w.perform c tickets)
  | .finished => none

/-! ## Working off everything -/

/-- Time passes until the worker need not wait any more. -/
def wait (w : Worker) : Worker :=
  match w.stage with
  | .waiting _ (some due) => { w with now := ⟨max w.now.nanos due.nanos⟩ }
  | _ => w

/-- How many steps are left at most. -/
def pending (w : Worker) : Nat := 4 * (w.queue.length + w.backlog.length) + w.stage.pending

theorem pending_wait (w : Worker) : w.wait.pending = w.pending := by
  rw [wait]
  split <;> rfl

theorem pending_take_le (r : Request) (w : Worker) :
    (w.take r).pending ≤ 4 * (w.queue.length + w.backlog.length) + 4 := by
  rw [take]
  split <;> simp [pending, Stage.pending]

theorem pending_join_le (b : Batch) (w : Worker) :
    (w.join b).pending < 4 * (w.queue.length + w.backlog.length) + 3 := by
  rw [join]
  split
  · simp [pending, Stage.pending]
  · rename_i r rest hqueue
    split <;> simp only [pending, Stage.pending, hqueue, List.length_cons, List.length_append,
      List.length_nil] <;> omega

theorem pending_lt_of_step {w next : Worker} (h : w.step = some next) :
    next.pending < w.pending := by
  unfold step at h
  split at h
  · rename_i hstage
    split at h
    · rename_i r rest hbacklog
      cases h
      have hle := pending_take_le r { w with backlog := rest }
      simp only [pending, hstage, hbacklog, Stage.pending, List.length_cons] at hle ⊢
      omega
    · rename_i r rest hbacklog hqueue
      cases h
      have hle := pending_take_le r { w with queue := rest }
      simp only [pending, hstage, hqueue, hbacklog, Stage.pending, List.length_cons] at hle ⊢
      omega
    · split at h
      · cases h
        simp [pending, hstage, Stage.pending]
      · cases h
  · rename_i b due hstage
    split at h
    · cases h
      simp [pending, hstage, Stage.pending]
    · cases h
  · rename_i b hstage
    cases h
    have hlt := pending_join_le b w
    simp only [pending, hstage, Stage.pending] at hlt ⊢
    exact hlt
  · rename_i c tickets hstage
    cases h
    simp [perform, pending, hstage, Stage.pending]
  · cases h

/-- Work until nothing is left to do, and wait where that is what there is to do. -/
def drain (w : Worker) : Worker :=
  match _h : w.wait.step with
  | none => w
  | some next => next.drain
termination_by w.pending
decreasing_by exact w.pending_wait ▸ pending_lt_of_step _h

end Worker

end ReactiveScript

import Mathlib.Data.List.Flatten
import Mathlib.Data.List.Forall2
import ReactiveScript.Proofs.Session.Request
import ReactiveScript.Session.Worker

/-!
# Workers lose nothing

Clients send requests to a worker, time passes, others change its session, and the worker takes its
steps, in any order.  Whatever the order, the worker carries out the requests that were sent, in the
order in which they were sent: each by itself, or several reruns from one origin that follow each
other as one rerun.  Everybody who waits for an answer gets one, which is that of the operation that
the request was part of.

* `Worker.Step` — what can happen to a worker.
* `Worker.Turn` — what one step of the worker itself comes to.
* `Worker.Orderly`, `Worker.Account`, `Worker.Patient` — what every step preserves.
* `Worker.serializes_without_loss` — what a whole history comes to.
-/

set_option autoImplicit false

namespace ReactiveScript

/-! ## Histories -/

/-- A command that was carried out. -/
structure Performance where
  /-- The command. -/
  command : Command
  /-- Who waited for the answer. -/
  tickets : List Nat
  /-- When it was carried out. -/
  time : Instant
  /-- What became of it. -/
  reply : Reply Answer

/-- The answers to those who waited. -/
def Performance.answers (p : Performance) : List Answered :=
  p.tickets.map fun t => ⟨t, p.reply.settle⟩

theorem Performance.map_ticket_answers (p : Performance) :
    p.answers.map Answered.ticket = p.tickets := by
  rw [answers, List.map_map]
  exact List.map_id _

/-- What can happen to a worker. -/
inductive Event where
  /-- A client sends a request. -/
  | sent (r : Request)
  /-- No more requests will be sent. -/
  | closed
  /-- Time passes, until now. -/
  | passed (now : Instant)
  /-- Somebody else changes the session. -/
  | touched (f : Session → Session)
  /-- The worker takes a step, and nothing is carried out. -/
  | moved
  /-- The worker carries out a command. -/
  | performed (p : Performance)

namespace Event

/-- The request that is sent. -/
def request? : Event → Option Request
  | .sent r => some r
  | _ => none

/-- The command that is carried out. -/
def performance? : Event → Option Performance
  | .performed p => some p
  | _ => none

/-- What the event does to the session. -/
def act (s : Session) : Event → Session
  | .touched f => f s
  | .performed p => (s.perform p.time p.command).2
  | _ => s

/-- The worker works, or time passes. -/
inductive IsWork : Event → Prop
  /-- Time passes. -/
  | passed (now : Instant) : IsWork (.passed now)
  /-- The worker takes a step. -/
  | moved : IsWork .moved
  /-- The worker carries out a command. -/
  | performed (p : Performance) : IsWork (.performed p)

end Event

/-- The requests that were sent, in order. -/
def sent (es : List Event) : List Request := es.filterMap Event.request?

/-- The commands that were carried out, in order. -/
def performances (es : List Event) : List Performance := es.filterMap Event.performance?

/-- The session after some events. -/
def Session.after (s : Session) (es : List Event) : Session := es.foldl Event.act s

theorem Session.after_concat (s : Session) (es : List Event) (e : Event) :
    s.after (es ++ [e]) = Event.act (s.after es) e := List.foldl_concat ..

theorem sent_concat (es : List Event) (e : Event) :
    sent (es ++ [e]) = sent es ++ e.request?.toList := by
  rw [sent, List.filterMap_append]
  cases h : e.request? <;> simp [sent, h]

theorem performances_concat (es : List Event) (e : Event) :
    performances (es ++ [e]) = performances es ++ e.performance?.toList := by
  rw [performances, List.filterMap_append]
  cases h : e.performance? <;> simp [performances, h]

namespace Worker

variable {s : Session} {w w' : Worker} {e : Event} {es : List Event}

/-- What the worker carries out with its next step. -/
def performance? (w : Worker) : Option Performance :=
  match w.stage with
  | .ready c tickets => some ⟨c, tickets, w.now, (w.session.perform w.now c).1⟩
  | _ => none

/-- The event that the next step of the worker is. -/
def nextEvent (w : Worker) : Event := (w.performance?.map .performed).getD .moved

/-- What happens to a worker.  A client, the clock, and whoever else has access to the session may act
between any two steps of the worker itself. -/
inductive Step : Worker → Event → Worker → Prop
  /-- A client sends a request. -/
  | send {w : Worker} (r : Request) : w.closed = false → Step w (.sent r) (w.submit r)
  /-- The last client has gone. -/
  | close (w : Worker) : Step w .closed w.close
  /-- Time passes. -/
  | pass {w : Worker} (now : Instant) : w.now.nanos ≤ now.nanos →
      Step w (.passed now) { w with now }
  /-- Somebody else changes the session. -/
  | touch (w : Worker) (f : Session → Session) :
      Step w (.touched f) { w with session := f w.session }
  /-- The worker takes a step. -/
  | work {w w' : Worker} : w.step = some w' → Step w w.nextEvent w'

/-- What has happened to a worker since it was given a session. -/
inductive History (s : Session) : List Event → Worker → Prop
  /-- Nothing has happened yet. -/
  | start : History s [] (.ofSession s)
  /-- Something happens. -/
  | step {es : List Event} {w w' : Worker} {e : Event} : History s es w → Step w e w' →
      History s (es ++ [e]) w'

/-! ## What requests are carried out as -/

/-- Requests that follow each other are carried out as one command: a single one as what it asks for,
and reruns from one origin as one rerun, later values winning. -/
inductive CarriedOutAs : List Request → Command → Prop
  /-- A single request. -/
  | single (r : Request) : CarriedOutAs [r] r.command
  /-- Reruns from one origin. -/
  | batch {rs : List Request} (origin : Option ObserverId) (first : Table UnitId Value)
      (more : List (Table UnitId Value)) :
      rs.map Request.command = (first :: more).map (Command.rerun origin) →
      CarriedOutAs rs (.rerun origin (more.foldl Table.merge first))

/-- Requests stand behind a command and those who wait for its answer. -/
def StandBehind (rs : List Request) (c : Command) (tickets : List Nat) : Prop :=
  CarriedOutAs rs c ∧ tickets = rs.filterMap Request.ticket

theorem standBehind_single (r : Request) : StandBehind [r] r.command r.ticket.toList :=
  ⟨.single r, by cases h : r.ticket <;> simp [h]⟩

/-- A rerun that stands alone is a batch of its own. -/
theorem CarriedOutAs.exists_batch {rs : List Request} {origin : Option ObserverId}
    {changes : Table UnitId Value} (h : CarriedOutAs rs (.rerun origin changes)) :
    ∃ first more, rs.map Request.command = (first :: more).map (Command.rerun origin) ∧
      changes = more.foldl Table.merge first := by
  generalize hc : Command.rerun origin changes = c at h
  cases h with
  | single r => exact ⟨changes, [], congrArg (fun c => [c]) hc.symm, rfl⟩
  | batch origin' first more hrs =>
    obtain ⟨rfl, rfl⟩ := Command.rerun.inj hc
    exact ⟨first, more, hrs, rfl⟩

/-- A request that joins a batch stands behind it with the others. -/
theorem StandBehind.join {rs : List Request} {b b' : Batch} {r : Request}
    (h : StandBehind rs b.command b.tickets) (hjoin : b.join? r = some b') :
    StandBehind (rs ++ [r]) b'.command b'.tickets := by
  rw [Batch.join?] at hjoin
  split at hjoin
  · rename_i origin more hr
    split at hjoin
    · rename_i horigin
      subst horigin
      cases hjoin
      obtain ⟨first, batches, hrs, hchanges⟩ := h.1.exists_batch
      constructor
      · have hall : (rs ++ [r]).map Request.command
            = (first :: (batches ++ [more])).map (Command.rerun b.origin) := by
          rw [List.map_append, hrs, ← List.cons_append, List.map_append, List.map_singleton, hr]
          rfl
        have hbatch := CarriedOutAs.batch b.origin first (batches ++ [more]) hall
        rw [List.foldl_append, ← hchanges] at hbatch
        exact hbatch
      · rw [List.filterMap_append, ← h.2]
        cases hticket : r.ticket <;> simp [hticket]
    · cases hjoin
  · cases hjoin

/-! ## The steps of the worker -/

/-- The command that is in hand, and those who wait for its answer. -/
def job? : Stage → Option (Command × List Nat)
  | .waiting b _ | .joining b => some (b.command, b.tickets)
  | .ready c tickets => some (c, tickets)
  | .idle | .finished => none

/-- What it means to have taken up a request when reruns have to wait for some time. -/
inductive TakesUp (due : Option Instant) (r : Request) : Stage → Prop
  /-- A rerun waits. -/
  | rerun {origin : Option ObserverId} {changes : Table UnitId Value} :
      r.command = .rerun origin changes →
      TakesUp due r (.waiting ⟨origin, changes, r.ticket.toList⟩ due)
  /-- Everything else does not. -/
  | other : (∀ origin changes, r.command ≠ .rerun origin changes) →
      TakesUp due r (.ready r.command r.ticket.toList)

theorem TakesUp.job?_eq {due : Option Instant} {r : Request} {stage : Stage}
    (h : TakesUp due r stage) : job? stage = some (r.command, r.ticket.toList) := by
  cases h with
  | rerun hr => rw [hr]; rfl
  | other => rfl

theorem take_eq (r : Request) (w : Worker) :
    ∃ stage, w.take r = { w with stage } ∧ TakesUp w.session.nextRerunAt r stage := by
  rw [take]
  split
  · rename_i origin changes hr
    exact ⟨_, rfl, .rerun hr⟩
  · rename_i c hc
    exact ⟨_, rfl, .other fun origin changes hr => hc origin changes hr⟩

/-- What one step of the worker comes to. -/
inductive Turn (w : Worker) : Worker → Prop
  /-- The next request is taken up, from the backlog if there is one. -/
  | take {r : Request} {backlog queue : List Request} {stage : Stage} : w.stage = .idle →
      w.backlog ++ w.queue = r :: (backlog ++ queue) → backlog.length = w.backlog.length - 1 →
      TakesUp w.session.nextRerunAt r stage → Turn w { w with backlog, queue, stage }
  /-- There will be no more requests. -/
  | finish : w.stage = .idle → w.backlog = [] → w.queue = [] → w.closed = true →
      Turn w { w with stage := .finished }
  /-- A batch need not wait any more. -/
  | wake {b : Batch} {due : Option Instant} : w.stage = .waiting b due →
      (∀ t, due = some t → t.nanos ≤ w.now.nanos) → Turn w { w with stage := .joining b }
  /-- A rerun joins the batch. -/
  | join {b b' : Batch} {r : Request} {queue : List Request} : w.stage = .joining b →
      w.queue = r :: queue → b.join? r = some b' →
      Turn w { w with queue, stage := .joining b' }
  /-- Another request is kept aside. -/
  | keep {b : Batch} {r : Request} {queue : List Request} : w.stage = .joining b →
      w.queue = r :: queue →
      Turn w { w with queue, backlog := w.backlog ++ [r], stage := .ready b.command b.tickets }
  /-- Nothing else can join the batch. -/
  | enough {b : Batch} : w.stage = .joining b → w.queue = [] →
      Turn w { w with stage := .ready b.command b.tickets }
  /-- A command is carried out. -/
  | perform {c : Command} {tickets : List Nat} : w.stage = .ready c tickets →
      Turn w (w.perform c tickets)

theorem turn_of_step (h : w.step = some w') : w.Turn w' := by
  unfold step at h
  split at h
  · rename_i hstage
    split at h
    · rename_i r rest hbacklog
      cases h
      obtain ⟨stage, htake, htakes⟩ := take_eq r { w with backlog := rest }
      rw [htake]
      exact .take hstage (by rw [hbacklog]; rfl) (by rw [hbacklog]; rfl) htakes
    · rename_i r rest hbacklog hqueue
      cases h
      obtain ⟨stage, htake, htakes⟩ := take_eq r { w with queue := rest }
      rw [htake]
      exact .take hstage (by rw [hbacklog, hqueue]; rfl) (by simp only [hbacklog]; rfl) htakes
    · rename_i hbacklog hqueue
      split at h
      · rename_i hclosed
        cases h
        exact .finish hstage hbacklog hqueue hclosed
      · cases h
  · rename_i b due hstage
    split at h
    · rename_i hdue
      cases h
      refine .wake hstage fun t ht => ?_
      rw [ht] at hdue
      exact of_decide_eq_true hdue
    · cases h
  · rename_i b hstage
    cases h
    rw [Worker.join]
    split
    · rename_i hqueue
      exact .enough hstage hqueue
    · rename_i r rest hqueue
      split
      · rename_i b' hjoin
        exact .join hstage hqueue hjoin
      · exact .keep hstage hqueue
  · rename_i c tickets hstage
    cases h
    exact .perform hstage
  · cases h

/-! ## Order -/

/-- At most one request is kept aside, none while others may join a batch, and a worker that has
finished has nothing left to do. -/
structure Orderly (w : Worker) : Prop where
  /-- At most one request is kept aside. -/
  backlog_le : w.backlog.length ≤ 1
  /-- None is kept aside before the batch is complete. -/
  waiting : ∀ b due, w.stage = .waiting b due → w.backlog = []
  /-- None is kept aside before the batch is complete. -/
  joining : ∀ b, w.stage = .joining b → w.backlog = []
  /-- A worker that has finished has nothing left to do. -/
  finished : w.stage = .finished → w.closed = true ∧ w.backlog = [] ∧ w.queue = []

theorem orderly_ofSession (s : Session) : (ofSession s).Orderly :=
  ⟨Nat.zero_le 1, nofun, nofun, nofun⟩

theorem Orderly.turn (h : w.Orderly) (hturn : w.Turn w') : w'.Orderly := by
  cases hturn with
  | @take r backlog queue stage hstage hnext hlength htakes =>
    have hbacklog : backlog = [] := List.eq_nil_of_length_eq_zero (by
      have := h.backlog_le
      omega)
    subst hbacklog
    refine ⟨Nat.zero_le 1, fun _ _ _ => rfl, fun _ _ => rfl, fun hfinished => ?_⟩
    cases htakes <;> cases hfinished
  | finish hstage hbacklog hqueue hclosed =>
    exact ⟨h.backlog_le, nofun, nofun, fun _ => ⟨hclosed, hbacklog, hqueue⟩⟩
  | wake hstage => exact ⟨h.backlog_le, nofun, fun _ _ => h.waiting _ _ hstage, nofun⟩
  | join hstage => exact ⟨h.backlog_le, nofun, fun _ _ => h.joining _ hstage, nofun⟩
  | keep hstage => exact ⟨by simp [h.joining _ hstage], nofun, nofun, nofun⟩
  | enough hstage => exact ⟨h.backlog_le, nofun, nofun, nofun⟩
  | perform hstage => exact ⟨h.backlog_le, nofun, nofun, nofun⟩

theorem Orderly.step (h : w.Orderly) (hstep : w.Step e w') : w'.Orderly := by
  cases hstep with
  | send r hclosed =>
    refine ⟨h.backlog_le, h.waiting, h.joining, fun hfinished => ?_⟩
    rw [(h.finished hfinished).1] at hclosed
    cases hclosed
  | close => exact ⟨h.backlog_le, h.waiting, h.joining, fun hf => ⟨rfl, (h.finished hf).2⟩⟩
  | pass | touch => exact ⟨h.backlog_le, h.waiting, h.joining, h.finished⟩
  | work hwork => exact h.turn (turn_of_step hwork)

theorem History.orderly (h : History s es w) : w.Orderly := by
  induction h with
  | start => exact orderly_ofSession s
  | step _ hstep ih => exact ih.step hstep

/-! ## Requests are accounted for -/

/-- A step of the worker carries out a command, or leaves the session and the answers alone. -/
theorem Turn.performs (hturn : w.Turn w') :
    (w.nextEvent = .moved ∧ w'.session = w.session ∧ w'.answers = w.answers ∧ w'.now = w.now) ∨
      ∃ c tickets, w.stage = .ready c tickets ∧ w' = w.perform c tickets ∧
        w.nextEvent = .performed ⟨c, tickets, w.now, (w.session.perform w.now c).1⟩ := by
  have hmoved : (∀ c tickets, w.stage ≠ .ready c tickets) → w.nextEvent = .moved := by
    intro hstage
    rw [nextEvent, performance?]
    split
    · rename_i c tickets hready
      exact absurd hready (hstage c tickets)
    · rfl
  cases hturn with
  | perform hstage =>
    refine Or.inr ⟨_, _, hstage, rfl, ?_⟩
    rw [nextEvent, performance?, hstage]
    rfl
  | take hstage | finish hstage | wake hstage | join hstage | keep hstage | enough hstage =>
    exact Or.inl ⟨hmoved fun c tickets => by rw [hstage]; exact nofun, rfl, rfl, rfl⟩

/-- The requests that a worker has in hand. -/
def Holds (stage : Stage) (held : List Request) : Prop :=
  match job? stage with
  | some (c, tickets) => StandBehind held c tickets
  | none => held = []

theorem holds_of_job? {stage : Stage} {held : List Request} {c : Command} {tickets : List Nat}
    (hjob : job? stage = some (c, tickets)) :
    Holds stage held ↔ StandBehind held c tickets := by
  rw [Holds, hjob]

/-- All requests that were sent are accounted for, in order: those that were carried out, those in
hand, the one that is kept aside, and those in the queue. -/
structure Account (es : List Event) (w : Worker) (groups : List (List Request))
    (held : List Request) : Prop where
  /-- What was carried out. -/
  performed : List.Forall₂ (fun rs p => StandBehind rs p.command p.tickets) groups (performances es)
  /-- What is in hand. -/
  inHand : Holds w.stage held
  /-- These are all requests, in order. -/
  order : groups.flatten ++ held ++ w.backlog ++ w.queue = sent es

theorem account_ofSession (s : Session) : Account [] (ofSession s) [] [] :=
  ⟨.nil, rfl, rfl⟩

namespace Account

variable {groups : List (List Request)} {held : List Request}

/-- A step of the worker that carries nothing out keeps the account. -/
theorem move (h : Account es w groups held) (horderly : w.Orderly) (hturn : w.Turn w')
    (hready : ∀ c tickets, w.stage ≠ .ready c tickets) :
    ∃ held', Account (es ++ [.moved]) w' groups held' := by
  have hperformed : performances (es ++ [.moved]) = performances es := by
    rw [performances_concat]
    exact List.append_nil _
  have hsent : sent (es ++ [.moved]) = sent es := by
    rw [sent_concat]
    exact List.append_nil _
  have hinHand := h.inHand
  have horder := h.order
  rw [← hsent] at horder
  have h₂ := h.performed
  rw [← hperformed] at h₂
  cases hturn with
  | @take r backlog queue stage hstage hnext _ htakes =>
    rw [hstage] at hinHand
    obtain rfl : held = [] := hinHand
    refine ⟨[r], h₂, (holds_of_job? htakes.job?_eq).2 (standBehind_single r), ?_⟩
    rw [← horder]
    simp [hnext]
  | finish hstage hbacklog hqueue _ =>
    rw [hstage] at hinHand
    exact ⟨held, h₂, hinHand, horder⟩
  | wake hstage =>
    rw [hstage] at hinHand
    exact ⟨held, h₂, hinHand, horder⟩
  | @join b b' r queue hstage hqueue hjoin =>
    rw [hstage] at hinHand
    refine ⟨held ++ [r], h₂, StandBehind.join hinHand hjoin, ?_⟩
    rw [← horder, hqueue, horderly.joining _ hstage]
    simp
  | @keep b r queue hstage hqueue =>
    rw [hstage] at hinHand
    refine ⟨held, h₂, hinHand, ?_⟩
    rw [← horder, hqueue, horderly.joining _ hstage]
    simp
  | enough hstage hqueue =>
    rw [hstage] at hinHand
    exact ⟨held, h₂, hinHand, horder⟩
  | perform hstage => exact absurd hstage (hready _ _)

/-- Carrying out a command settles the requests in hand. -/
theorem perform (h : Account es w groups held) {c : Command} {tickets : List Nat}
    (hstage : w.stage = .ready c tickets) (time : Instant) (reply : Reply Answer) :
    Account (es ++ [.performed ⟨c, tickets, time, reply⟩]) (w.perform c tickets)
      (groups ++ [held]) [] where
  performed := by
    have hheld := h.inHand
    rw [hstage] at hheld
    rw [performances_concat]
    exact List.rel_append h.performed (.cons hheld .nil)
  inHand := rfl
  order := by
    rw [sent_concat, ← h.order]
    simp [Worker.perform, Event.request?]

theorem step (h : Account es w groups held) (horderly : w.Orderly) (hstep : w.Step e w') :
    ∃ groups' held', Account (es ++ [e]) w' groups' held' := by
  have hsent := sent_concat es e
  have hperformed := performances_concat es e
  cases hstep with
  | send r =>
    refine ⟨groups, held, by rw [hperformed]; simpa [Event.performance?] using h.performed,
      h.inHand, ?_⟩
    rw [hsent, ← h.order]
    simp [submit, Event.request?]
  | close | pass | touch =>
    refine ⟨groups, held, by rw [hperformed]; simpa [Event.performance?] using h.performed,
      h.inHand, ?_⟩
    rw [hsent, ← h.order]
    simp [close, Event.request?]
  | work hwork =>
    have hturn := turn_of_step hwork
    rcases hturn.performs with ⟨hmoved, -⟩ | ⟨c, tickets, hstage, rfl, hevent⟩
    · rw [hmoved]
      refine ⟨groups, h.move horderly hturn fun c tickets hstage => ?_⟩
      rw [nextEvent, performance?, hstage] at hmoved
      cases hmoved
    · rw [hevent]
      exact ⟨_, _, h.perform hstage _ _⟩

end Account

theorem History.exists_account (h : History s es w) :
    ∃ groups held, Account es w groups held := by
  induction h with
  | start => exact ⟨_, _, account_ofSession s⟩
  | step hhistory hstep ih =>
    obtain ⟨groups, held, haccount⟩ := ih
    exact haccount.step hhistory.orderly hstep

/-! ## Answers -/

/-- Those who waited for a command that was carried out got its answer, and nobody else did. -/
theorem History.answers_eq (h : History s es w) :
    w.answers = (performances es).flatMap Performance.answers := by
  induction h with
  | start => rfl
  | @step es w w' e _ hstep ih =>
    rw [performances_concat, List.flatMap_append, ← ih]
    cases hstep with
    | send | close | pass | touch => exact (List.append_nil _).symm
    | work hwork =>
      rcases (turn_of_step hwork).performs with
        ⟨hmoved, -, hanswers, -⟩ | ⟨c, tickets, -, rfl, hevent⟩
      · rw [hmoved, hanswers]
        exact (List.append_nil _).symm
      · rw [hevent]
        exact congrArg (w.answers ++ ·) (List.append_nil _).symm

/-- Everybody in a group who waits gets an answer. -/
theorem map_ticket_answers {groups : List (List Request)} {ps : List Performance}
    (h : List.Forall₂ (fun rs p => StandBehind rs p.command p.tickets) groups ps) :
    (ps.flatMap Performance.answers).map Answered.ticket
      = groups.flatten.filterMap Request.ticket := by
  induction h with
  | nil => rfl
  | cons hstand _ ih =>
    rw [List.flatMap_cons, List.map_append, Performance.map_ticket_answers, ih, List.flatten_cons,
      List.filterMap_append, hstand.2]

/-- The session is what the commands, and others who have access to it, have made of it. -/
theorem History.session_eq (h : History s es w) : w.session = s.after es := by
  induction h with
  | start => rfl
  | @step es w w' e _ hstep ih =>
    rw [Session.after_concat, ← ih]
    cases hstep with
    | send | close | pass | touch => rfl
    | work hwork =>
      rcases (turn_of_step hwork).performs with
        ⟨hmoved, hsession, -, -⟩ | ⟨c, tickets, -, rfl, hevent⟩
      · rw [hmoved, hsession]
        rfl
      · rw [hevent]
        rfl

/-- What became of a command is what carrying it out on the session at that time came to. -/
theorem History.reply_eq (h : History s es w) {before after : List Event} {p : Performance}
    (hes : es = before ++ .performed p :: after) :
    p.reply = ((s.after before).perform p.time p.command).1 := by
  induction h generalizing after with
  | start => simp at hes
  | @step es w w' e hhistory hstep ih =>
    rcases List.eq_nil_or_concat after with rfl | ⟨after, last, rfl⟩
    · obtain ⟨rfl, hlast⟩ := List.append_inj' hes rfl
      obtain rfl : e = .performed p := List.singleton_inj.1 hlast
      rw [← hhistory.session_eq]
      generalize he : Event.performed p = e at hstep
      cases hstep with
      | send | close | pass | touch => cases he
      | work hwork =>
        rcases (turn_of_step hwork).performs with ⟨hmoved, -⟩ | ⟨c, tickets, -, -, hevent⟩
        · rw [hmoved] at he
          cases he
        · rw [hevent] at he
          cases he
          rfl
    · rw [List.concat_eq_append, ← List.cons_append, ← List.append_assoc] at hes
      exact ih (List.append_inj' hes rfl).1

/-! ## Reruns wait until they are not debounced -/

/-- Nobody else changes from when on reruns are not debounced. -/
def KeepsTime (es : List Event) : Prop :=
  ∀ f, .touched f ∈ es → ∀ s : Session, (f s).nextRerunAt = s.nextRerunAt

theorem isDebounced_iff (now : Instant) (s : Session) :
    s.isDebounced now = true ↔ ∃ t, s.nextRerunAt = some t ∧ now.nanos < t.nanos := by
  rw [Session.isDebounced]
  cases s.nextRerunAt <;> simp

theorem isDebounced_eq_false_of_le {s s' : Session} {now now' : Instant}
    (hdue : s'.nextRerunAt = s.nextRerunAt) (hle : now.nanos ≤ now'.nanos)
    (h : s.isDebounced now = false) : s'.isDebounced now' = false := by
  rw [← Bool.not_eq_true, isDebounced_iff] at h ⊢
  rintro ⟨t, ht, hlt⟩
  exact h ⟨t, hdue.symm.trans ht, lt_of_le_of_lt hle hlt⟩

/-- The worker knows how long a batch has to wait, and has waited for it before going on. -/
structure Patient (w : Worker) : Prop where
  /-- It knows how long the batch has to wait. -/
  waiting : ∀ b due, w.stage = .waiting b due → due = w.session.nextRerunAt
  /-- It has waited. -/
  joining : ∀ b, w.stage = .joining b → w.session.isDebounced w.now = false
  /-- It has waited. -/
  ready : ∀ origin changes tickets, w.stage = .ready (.rerun origin changes) tickets →
    w.session.isDebounced w.now = false

namespace Patient

theorem turn (h : w.Patient) (hturn : w.Turn w') : w'.Patient := by
  cases hturn with
  | take hstage hnext hlength htakes =>
    cases htakes with
    | rerun hr => exact ⟨fun b due hstage => by cases hstage; rfl, nofun, nofun⟩
    | other hr =>
      refine ⟨nofun, nofun, fun origin changes tickets hstage => ?_⟩
      exact absurd (Stage.ready.inj hstage).1 (hr origin changes)
  | finish => exact ⟨nofun, nofun, nofun⟩
  | @wake b due hstage hdue =>
    refine ⟨nofun, fun _ _ => ?_, nofun⟩
    rw [← Bool.not_eq_true, isDebounced_iff]
    rintro ⟨t, ht, hlt⟩
    exact absurd (hdue t ((h.waiting b due hstage).trans ht)) (not_le.2 hlt)
  | join hstage => exact ⟨nofun, fun _ _ => h.joining _ hstage, nofun⟩
  | keep hstage | enough hstage => exact ⟨nofun, nofun, fun _ _ _ _ => h.joining _ hstage⟩
  | perform => exact ⟨nofun, nofun, nofun⟩

/-- Time may pass, and others may change the session otherwise. -/
theorem of_le (h : w.Patient) (hstage : w'.stage = w.stage)
    (hdue : w'.session.nextRerunAt = w.session.nextRerunAt) (hle : w.now.nanos ≤ w'.now.nanos) :
    w'.Patient where
  waiting b due hw := (h.waiting b due (hstage.symm.trans hw)).trans hdue.symm
  joining b hj := isDebounced_eq_false_of_le hdue hle (h.joining b (hstage.symm.trans hj))
  ready o c tickets hr :=
    isDebounced_eq_false_of_le hdue hle (h.ready o c tickets (hstage.symm.trans hr))

theorem step (h : w.Patient) (hstep : w.Step e w')
    (htouch : ∀ f, e = .touched f → ∀ s : Session, (f s).nextRerunAt = s.nextRerunAt) :
    w'.Patient := by
  cases hstep with
  | send | close => exact h.of_le rfl rfl le_rfl
  | pass now hle => exact h.of_le rfl rfl hle
  | touch f => exact h.of_le rfl (htouch f rfl w.session) le_rfl
  | work hwork => exact h.turn (turn_of_step hwork)

end Patient

/-- If nobody else interferes, no rerun is debounced. -/
theorem History.patient (h : History s es w) (htime : KeepsTime es) : w.Patient ∧
    ∀ p ∈ performances es, p.reply ≠ .done (.rerun .debounced) := by
  induction h with
  | start => exact ⟨⟨nofun, nofun, nofun⟩, List.forall_mem_nil _⟩
  | @step es w w' e _ hstep ih =>
    obtain ⟨hpatient, hreplies⟩ := ih fun f hf => htime f (List.mem_append_left _ hf)
    refine ⟨hpatient.step hstep fun f hf => htime f (by simp [hf]), fun p hp => ?_⟩
    rw [performances_concat, List.mem_append] at hp
    rcases hp with hp | hp
    · exact hreplies p hp
    cases hstep with
    | send | close | pass | touch => cases hp
    | work hwork =>
      rcases (turn_of_step hwork).performs with ⟨hmoved, -⟩ | ⟨c, tickets, hstage, -, hevent⟩
      · rw [hmoved] at hp
        cases hp
      · rw [hevent] at hp
        obtain rfl := List.mem_singleton.1 hp
        intro hdebounced
        cases c with
        | rerun origin changes =>
          obtain ⟨outcome, hrerun, houtcome⟩ := Reply.exists_of_map hdebounced
          cases houtcome
          have hnow := hpatient.ready origin changes tickets hstage
          rw [Session.isDebounced_of_rerun hrerun] at hnow
          cases hnow
        | start | restart | stop =>
          obtain ⟨_, -, houtcome⟩ := Reply.exists_of_map hdebounced
          cases houtcome
        | introspect => cases hdebounced

/-! ## Everything is carried out in the end -/

/-- A worker that need not wait any more and has no step left has nothing left to do. -/
theorem nothing_left_of_step_eq_none (horderly : w.Orderly) (h : w.wait.step = none) :
    w.backlog = [] ∧ w.queue = [] ∧ job? w.stage = none ∧
      (w.closed = true → w.stage = .finished) := by
  cases hstage : w.stage with
  | idle =>
    rw [wait, hstage] at h
    simp only [step, hstage] at h
    split at h
    · cases h
    · cases h
    · rename_i hbacklog hqueue
      split at h
      · cases h
      · rename_i hclosed
        exact ⟨hbacklog, hqueue, rfl, fun hc => absurd hc hclosed⟩
  | waiting b due =>
    rw [wait, hstage] at h
    cases due with
    | none => simp [step, hstage] at h
    | some t => simp [step] at h
  | joining b =>
    rw [wait, hstage] at h
    simp [step, hstage] at h
  | ready c tickets =>
    rw [wait, hstage] at h
    simp [step, hstage] at h
  | finished =>
    obtain ⟨-, hbacklog, hqueue⟩ := horderly.finished hstage
    exact ⟨hbacklog, hqueue, rfl, fun _ => rfl⟩

/-- Waiting is letting time pass. -/
theorem exists_history_wait (h : History s es w) :
    ∃ now, History s (es ++ [.passed now]) w.wait := by
  rw [wait]
  split
  · exact ⟨_, h.step (.pass _ (le_max_left _ _))⟩
  · exact ⟨w.now, h.step (.pass w.now le_rfl)⟩

/-- Time and the steps of the worker alone lead to where nothing is left to do. -/
theorem History.exists_rest (h : History s es w) : ∃ more w', (∀ e ∈ more, e.IsWork) ∧
    History s (es ++ more) w' ∧ w'.closed = w.closed ∧ w'.wait.step = none := by
  induction hn : w.pending using Nat.strong_induction_on generalizing es w with
  | _ n ih =>
    cases hnext : w.wait.step with
    | none => exact ⟨[], w, List.forall_mem_nil _, by rwa [List.append_nil], rfl, hnext⟩
    | some next =>
      obtain ⟨now, hwait⟩ := exists_history_wait h
      have hless : next.pending < n := by
        rw [← hn, ← w.pending_wait]
        exact pending_lt_of_step hnext
      obtain ⟨more, w', hmore, hhistory, hclosed, hrest⟩ :=
        ih _ hless (hwait.step (.work hnext)) rfl
      refine ⟨.passed now :: w.wait.nextEvent :: more, w', ?_, by simpa using hhistory, ?_, hrest⟩
      · have hwork : w.wait.nextEvent.IsWork := by
          rcases (turn_of_step hnext).performs with ⟨hmoved, -⟩ | ⟨_, _, -, -, hevent⟩
          · rw [hmoved]
            exact .moved
          · rw [hevent]
            exact .performed _
        simpa [hwork] using ⟨Event.IsWork.passed now, hmore⟩
      · have hkept : next.closed = w.wait.closed := by
          cases turn_of_step hnext <;> rfl
        rw [hclosed, hkept, wait]
        split <;> rfl

/-- **A worker serializes requests without loss.**  However the requests of its clients, the passing
of time, its own steps and whatever others do to its session come one after another, the commands
that it has carried out stand for groups of the requests that were sent, which follow each other
without a gap in the order in which they were sent: single requests, and reruns from one origin that
became one rerun, later values winning.  What is not among them is in hand, kept aside, which at most
one request is, or in the queue, in that order.  Everybody in a group who waits for an answer has got
one, and nobody has got another: it is what the command came to when it was carried out, on what the
commands and others had made of the session by then, and that the work was lost if it broke off.  A
worker that has finished has carried out all requests.  No rerun was debounced, if nobody else has
changed from when on reruns are not.  From here, the worker and time alone lead to where all requests
are carried out, and the worker has finished if no more will be sent. -/
theorem serializes_without_loss (h : History s es w) : ∃ groups held : List _,
    List.Forall₂ (fun rs p => StandBehind rs p.command p.tickets) groups (performances es) ∧
      Holds w.stage held ∧ groups.flatten ++ held ++ w.backlog ++ w.queue = sent es ∧
      w.backlog.length ≤ 1 ∧
      w.answers.map Answered.ticket = groups.flatten.filterMap Request.ticket ∧
      w.answers = (performances es).flatMap Performance.answers ∧
      (∀ before p after, es = before ++ .performed p :: after →
        p.reply = ((s.after before).perform p.time p.command).1) ∧
      w.session = s.after es ∧
      (w.stage = .finished → w.closed = true ∧ groups.flatten = sent es) ∧
      (KeepsTime es → ∀ p ∈ performances es, p.reply ≠ .done (.rerun .debounced)) ∧
      ∃ more w', (∀ e ∈ more, e.IsWork) ∧ History s (es ++ more) w' ∧
        (w.closed = true → w'.stage = .finished) ∧ ∃ all,
        List.Forall₂ (fun rs p => StandBehind rs p.command p.tickets) all
          (performances (es ++ more)) ∧ all.flatten = sent es := by
  obtain ⟨groups, held, haccount⟩ := h.exists_account
  refine ⟨groups, held, haccount.performed, haccount.inHand, haccount.order, h.orderly.backlog_le,
    ?_, h.answers_eq, fun before p after => h.reply_eq, h.session_eq, fun hfinished => ?_,
    fun htime => (h.patient htime).2, ?_⟩
  · rw [h.answers_eq]
    exact map_ticket_answers haccount.performed
  · obtain ⟨hclosed, hbacklog, hqueue⟩ := h.orderly.finished hfinished
    have hheld := haccount.inHand
    rw [hfinished] at hheld
    obtain rfl : held = [] := hheld
    have horder := haccount.order
    rw [hbacklog, hqueue] at horder
    exact ⟨hclosed, by simpa using horder⟩
  · obtain ⟨more, w', hmore, hrest, hclosed, hnone⟩ := h.exists_rest
    obtain ⟨all, held', haccount'⟩ := hrest.exists_account
    obtain ⟨hbacklog, hqueue, hjob, hfinished⟩ := nothing_left_of_step_eq_none hrest.orderly hnone
    have hheld := haccount'.inHand
    rw [Holds, hjob] at hheld
    obtain rfl : held' = [] := hheld
    refine ⟨more, w', hmore, hrest, fun hc => hfinished (hclosed.trans hc), all,
      haccount'.performed, ?_⟩
    have horder := haccount'.order
    have hnothing : more.filterMap Event.request? = [] := List.filterMap_eq_nil_iff.2 fun e he => by
      cases hmore e he <;> rfl
    rw [hbacklog, hqueue, sent, List.filterMap_append, hnothing] at horder
    simpa [sent] using horder

/-- Two reruns, while the worker waits for the first, and a stop, after which nothing is sent. -/
def rerunsAndStop : List Request :=
  [⟨.rerun none [(⟨"a"⟩, .bool true)], some 0⟩, ⟨.rerun none [(⟨"a"⟩, .bool false)], some 1⟩,
    ⟨.stop, some 2⟩]

/-- The theorem applies to a worker that has carried out two reruns as one, and a stop. -/
theorem serializes_reruns_and_stop : ∃ es w, History (.fresh ⟨"main"⟩ .standard) es w ∧
    sent es = rerunsAndStop ∧ w.stage = .finished ∧
    (performances es).map Performance.command = [.rerun none [(⟨"a"⟩, .bool false)], .stop] ∧
    w.answers.map Answered.ticket = [0, 1, 2] := by
  have hopen : History (.fresh ⟨"main"⟩ .standard) _ _ :=
    .step (.step (.step (.step .start (.send rerunsAndStop[0] rfl)) (.work rfl))
      (.send rerunsAndStop[1] rfl)) (.send rerunsAndStop[2] rfl)
  have hworked := (((hopen.step (.work rfl)).step (.work rfl)).step (.work rfl)).step (.work rfl)
  have hdone := (((hworked.step (.work rfl)).step (.work rfl)).step (.close _)).step (.work rfl)
  obtain ⟨groups, _, -, -, -, -, htickets, -, -, -, hfinished, -⟩ := serializes_without_loss hdone
  rw [(hfinished rfl).2] at htickets
  exact ⟨_, _, hdone, rfl, rfl, rfl, htickets⟩

end Worker

end ReactiveScript

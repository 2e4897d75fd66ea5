import ReactiveScript.Audience
import ReactiveScript.Memo
import ReactiveScript.Program
import ReactiveScript.View

/-!
# Sessions

A `Session` drives one script for its observers: it holds the script, the graph it was split into,
the values of the input units, what is on display, and what the observers were sent last.

* `Session.attach`, `Session.publish` — observers, and what they are sent on demand.
* `Session.finish` — the end of every run: what is on view is packed into rows, and the rows are
  sent if anything differs from what was sent before.
-/

set_option autoImplicit false

namespace ReactiveScript

/-! ## States, modes and answers -/

/-- What a session is doing. -/
inductive RunState where
  /-- It has not been started. -/
  | initial
  /-- Its script has been loaded and reacts to inputs. -/
  | running
  /-- It was stopped. -/
  | stopped
  /-- Its script failed. -/
  | error
  deriving DecidableEq, Repr

/-- The name of a state. -/
def RunState.text : RunState → String
  | .initial => "initial"
  | .running => "running"
  | .stopped => "stopped"
  | .error => "error"

/-- How a session reacts to inputs. -/
inductive Mode where
  /-- It runs the nodes that are affected. -/
  | incremental
  /-- It runs the whole script, which could not be split into nodes. -/
  | fullRerun
  deriving DecidableEq, Repr

/-- The name of a mode. -/
def Mode.text : Mode → String
  | .incremental => "incremental"
  | .fullRerun => "full_rerun"

/-- Why a session refused a request. -/
inductive SessionError where
  /-- It is not running. -/
  | notRunning (state : RunState)
  /-- It has been started before. -/
  | alreadyStarted
  /-- There is no script to run. -/
  | noScript
  /-- The script failed. -/
  | script (e : ScriptError)
  /-- The work was lost. -/
  | closed

/-- The wording of a refusal. -/
def SessionError.text : SessionError → String
  | .notRunning state => "session is not running (state: " ++ state.text ++ ")"
  | .alreadyStarted => "session has already been started"
  | .noScript => "no script has been loaded"
  | .script e => e.text
  | .closed => "session task has shut down"

/-- What a rerun did. -/
inductive RerunOutcome where
  /-- Nothing: no input had changed. -/
  | unchanged
  /-- Nothing: the last run was too recent. -/
  | debounced
  /-- It ran the nodes that were affected. -/
  | incremental (affected : List NodeId)
  /-- It ran the whole script. -/
  | fullRerun
  deriving DecidableEq, Repr

/-- What became of a request. -/
inductive Reply (α : Type) where
  /-- It was carried out. -/
  | done (a : α)
  /-- It was refused, or the script failed. -/
  | refused (e : SessionError)
  /-- The work on it broke off. -/
  | crashed

namespace Reply

/-- What the requester learns if work that broke off counts as lost. -/
def settle {α : Type} : Reply α → Except SessionError α
  | .done a => .ok a
  | .refused e => .error e
  | .crashed => .error .closed

/-- A reply with what was carried out replaced. -/
def map {α β : Type} (f : α → β) : Reply α → Reply β
  | .done a => .done (f a)
  | .refused e => .refused e
  | .crashed => .crashed

end Reply

/-! ## Sessions -/

/-- The text of a script, under a name. -/
structure Source where
  /-- The name. -/
  file : String
  /-- The text. -/
  text : String
  deriving DecidableEq, Repr

/-- The name of a session. -/
structure SessionId where
  /-- Its text. -/
  text : String
  deriving DecidableEq, Repr

/-- One session. -/
structure Session where
  /-- Its name. -/
  id : SessionId
  /-- Its settings. -/
  settings : Settings
  /-- What it is doing. -/
  state : RunState
  /-- How it reacts to inputs. -/
  mode : Mode
  /-- The text that was loaded last. -/
  source : Option Source
  /-- The script split into nodes, if it reacts incrementally. -/
  program : Option Program
  /-- The script as a whole, if it is rerun as a whole. -/
  script : Option Script
  /-- The nodes of the program. -/
  graph : Graph
  /-- The values of the input units. -/
  inputs : InputTable
  /-- The last accepted form of each input. -/
  inputMemo : Memo
  /-- The last form in which each unit was on display at the end of a run. -/
  shown : Memo
  /-- The units on view. -/
  view : View
  /-- The rows that were packed last. -/
  rows : List Row
  /-- Who observes the session. -/
  audience : Audience
  /-- When the last run ended. -/
  lastRun : Option Instant
  /-- How many runs came to their end. -/
  runs : Nat

namespace Session

/-- A session that has not been started. -/
def fresh (id : SessionId) (settings : Settings) : Session where
  id := id
  settings := settings
  state := .initial
  mode := .incremental
  source := none
  program := none
  script := none
  graph := .ofSettings settings
  inputs := []
  inputMemo := .empty
  shown := .empty
  view := .empty
  rows := []
  audience := .empty
  lastRun := none
  runs := 0

/-- From when on a rerun is not debounced, if there is a window at all. -/
def nextRerunAt (s : Session) : Option Instant :=
  if s.settings.debounce.nanos.val = 0 then none else s.lastRun.map (·.after s.settings.debounce)

/-- Whether a rerun at some time falls into the window after the last run. -/
def isDebounced (now : Instant) (s : Session) : Bool :=
  s.nextRerunAt.any fun t => decide (now.nanos < t.nanos)

/-- The state of the graph. -/
def introspect (s : Session) : GraphReport := s.graph.report

/-! ## Observers -/

/-- Send a message to everybody but `skip`. -/
def broadcast (skip : Option ObserverId) (m : Message) (s : Session) : Session :=
  { s with audience := s.audience.broadcast skip m }

/-- The ids of all units that were packed last, row by row. -/
def placedIds (s : Session) : List UnitId := s.rows.flatMap fun row => row.map fun p => p.unit.id

/-- Attach an observer.  Once a run has come to its end, it is sent the rows right away. -/
def attach (accepts : Nat → Bool) (s : Session) : ObserverId × Session :=
  let welcome := if s.runs = 0 then none else some (.components s.rows s.placedIds)
  let (id, audience) := s.audience.attach accepts welcome
  (id, { s with audience })

/-- Detach an observer; whether it was attached. -/
def detach (id : ObserverId) (s : Session) : Bool × Session :=
  let (known, audience) := s.audience.detach id
  (known, { s with audience })

/-- The line to an observer breaks down. -/
def hangUp (id : ObserverId) (s : Session) : Session :=
  { s with audience := s.audience.hangUp id }

/-- Send the state of the graph to everybody. -/
def publish (s : Session) : Session := s.broadcast none (.graph s.introspect)

/-- Send printed lines to everybody, one by one. -/
def announce (node : Option NodeId) (lines : List String) (s : Session) : Session :=
  lines.foldl (fun s line => s.broadcast none (.output line node)) s

/-! ## The end of a run -/

/-- End a run: pack what is on view, and send the rows if a unit is new, differs or is gone, or if
they are to be sent in any case. -/
def finish (now : Instant) (force : Bool) (s : Session) : Session :=
  let units := s.view.units s.graph.order
  let (changed, shown) := s.shown.sift (fun u => (u.id, u.snapshot)) units
  let (removed, shown) := shown.retain fun id => units.any fun u => u.id == id
  let s := { s with shown, rows := OutputUnit.pack units, lastRun := some now, runs := s.runs + 1 }
  if changed.isEmpty && removed == 0 && !force then s
  else s.broadcast none (.components s.rows (changed.map OutputUnit.id))

end Session

end ReactiveScript

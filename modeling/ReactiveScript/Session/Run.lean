import ReactiveScript.Graph.Execution
import ReactiveScript.Program.Split
import ReactiveScript.Session

/-!
# Runs of a session

A session is started once, and from then on it is restarted.  Either loads the script: it is split
into nodes, which all run, or it is run from top to bottom if it cannot be split.  A rerun stores the
inputs that changed and runs the nodes that depend on them, or the whole script again.

The state changes as follows.

* `Session.start` — from initial to running.
* `Session.stop` — from running to stopped.
* `Session.restart` — from any state to running, once a script has been loaded.
* A script that cannot be read, or fails as a whole, leads to the error state; a node that fails does
  not.
-/

set_option autoImplicit false

namespace ReactiveScript

namespace Session

/-! ## Running the script -/

/-- The script failed: everybody is told. -/
def fail {α : Type} (e : ScriptError) (s : Session) : Reply α × Session :=
  (.refused (.script e), { s with state := .error }.broadcast none (.failure e.notice))

/-- Run the script from top to bottom.  What it emits replaces all that was on view. -/
def runWhole (s : Session) : Reply Unit × Session :=
  match s.script, s.source with
  | some script, some source =>
    let (lines, result) := script.interpretLogged source.file s.inputs s.settings.recursionLimit
    let s := s.announce none lines
    match result with
    | .ok units => (.done (), { s with view := View.empty.replace View.wholeScript units })
    | .error e => s.fail e
  | _, _ => (.refused .noScript, s)

/-- Read the script as a whole and run it from top to bottom from now on. -/
def runWholeFrom (source : Source) (s : Session) : Reply Unit × Session :=
  match Script.ofSource source.text with
  | .error e => s.fail (.parse e)
  | .ok script => { s with script := some script, mode := .fullRerun, state := .running }.runWhole

/-- Take what a walk over the graph did on view: printed lines are announced, nodes without a valid
output lose their units, and completed nodes replace theirs. -/
def apply (r : Report) (s : Session) : Session :=
  let s := r.printed.foldl (fun s (node, lines) => s.announce (some node) lines) s
  let view := r.invalidated.foldl (fun v node => v.remove node) s.view
  { s with view := r.outputs.foldl (fun v (node, units) => v.replace node units) view }

/-- Run nodes of the graph: all of them, or the given ones and those that ask for it. -/
def runNodes (recompute : Option (List NodeId)) (s : Session) : Reply Unit × Session :=
  match s.graph.execute recompute s.inputs with
  | (some report, graph) => (.done (), { s with graph }.apply report)
  | (none, graph) => (.crashed, { s with graph })

/-! ## Loading -/

/-- The script split into nodes, and the graph of these nodes, if the settings ask for it and it can
be done. -/
def split? (source : Source) (s : Session) : Option (Program × Graph) :=
  if !s.settings.incremental then none
  else match Program.ofSource source.file source.text with
    | .error _ => none
    | .ok program =>
      match program.install s.settings.recursionLimit (.ofSettings s.settings) with
      | .error _ => none
      | .ok graph => some (program, graph)

/-- Forget the last script and what it displayed; inputs are kept. -/
def unload (s : Session) : Session :=
  { s with graph := .ofSettings s.settings, program := none, script := none, shown := .empty
           view := .empty }

/-- Load a script and run it once. -/
def load (now : Instant) (source : Source) (s : Session) : Reply Unit × Session :=
  let s := { s.unload with source := some source }
  let (reply, s) := match s.split? source with
    | some (program, graph) =>
      { s with program := some program, graph, mode := .incremental, state := .running }.runNodes
        none
    | none => s.runWholeFrom source
  match reply with
  | .done _ => (.done (), s.finish now true)
  | _ => (reply, s)

/-- Start the session with a script. -/
def start (now : Instant) (source : Source) (s : Session) : Reply Unit × Session :=
  if s.state = .initial then s.load now source else (.refused .alreadyStarted, s)

/-- Load the script again. -/
def restart (now : Instant) (s : Session) : Reply Unit × Session :=
  match s.source with
  | some source => s.load now source
  | none => (.refused .noScript, s)

/-- Stop reacting to inputs. -/
def stop (s : Session) : Reply Unit × Session :=
  if s.state = .running then (.done (), { s with state := .stopped })
  else (.refused (.notRunning s.state), s)

/-! ## Reruns -/

/-- Run all nodes of the program in a graph of their own, with nothing left of earlier runs. -/
def runCold (s : Session) : Reply Unit × Session :=
  match s.program with
  | none => s.runWhole
  | some program =>
    let s := { s with graph := s.graph.reset, view := .empty }
    match program.install s.settings.recursionLimit s.graph with
    | .ok graph => { s with graph }.runNodes none
    | .error _ =>
      match s.source with
      | some source => { s with program := none }.runWholeFrom source
      | none => (.refused .noScript, { s with program := none })

/-- Run what depends on some units; if that is nothing, run everything. -/
def runAffected (changed : List UnitId) (s : Session) : Reply RerunOutcome × Session :=
  let affected := s.graph.affected (changed.filterMap s.graph.producer?)
  if affected.isEmpty then
    let (reply, s) := s.runCold
    (reply.map fun _ => .fullRerun, s)
  else
    let (reply, s) := s.runNodes (some affected)
    (reply.map fun _ => .incremental affected, s)

/-- Run again what depends on some units. -/
def runAgain (changed : List UnitId) (s : Session) : Reply RerunOutcome × Session :=
  match s.mode with
  | .incremental => s.runAffected changed
  | .fullRerun =>
    let (reply, s) := s.runWhole
    (reply.map fun _ => .fullRerun, s)

/-- Store the value of an input, and tell everybody but the one whom it comes from. -/
def store (origin : Option ObserverId) (s : Session) (change : UnitId × Value) : Session :=
  { s with inputs := Table.put change.1 change.2 s.inputs }.broadcast origin
    (.stateUpdate change.1 change.2)

/-- React to a batch of changes that came from an observer.  What does not change anything is
dropped. -/
def rerun (now : Instant) (origin : Option ObserverId) (changes : Table UnitId Value)
    (s : Session) : Reply RerunOutcome × Session :=
  if s.state ≠ .running then (.refused (.notRunning s.state), s)
  else if s.isDebounced now then (.done .debounced, s)
  else
    let (accepted, inputMemo) := s.inputMemo.sift (fun e => (e.1, e.2.toJson)) changes
    if accepted.isEmpty then (.done .unchanged, s)
    else
      let s := accepted.foldl (store origin) { s with inputMemo }
      let (reply, s) := s.runAgain (Table.keys accepted)
      match reply with
      | .done outcome => (.done outcome, s.finish now false)
      | _ => (reply, s)

end Session

end ReactiveScript

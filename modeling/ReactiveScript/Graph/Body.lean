import ReactiveScript.Evaluation.Log
import ReactiveScript.Identity

/-!
# Bodies of nodes

What a node of the graph does when it runs is a `Body`: a function from a `Visit` — the arguments,
the stored values it may read, the inputs, its time limit — to an `Outcome`.  An outcome says how
the body ended and what it did on the way, its `Footprint`: the units it emitted, the lines it
printed, the time it took, and the nodes whose stored values it read.
-/

set_option autoImplicit false

namespace ReactiveScript

/-- Why a node failed. -/
inductive NodeError where
  /-- Its script raised. -/
  | eval (e : EvalError)
  /-- A node that it depends on had failed, so it was not run. -/
  | dependencyFailed (node : NodeId)
  /-- It took too long. -/
  | timeout (limit : Duration)
  /-- It panicked. -/
  | panicked (message : String)
  /-- Any other reason. -/
  | custom (message : String)
  deriving DecidableEq, Repr

namespace NodeError

/-- The wording of a failure. -/
def text : NodeError → String
  | .eval e => e.text
  | .dependencyFailed n => "upstream node " ++ n.text ++ " failed"
  | .timeout limit => "node exceeded its deadline of " ++ limit.text
  | .panicked m => "node body panicked: " ++ m
  | .custom m => m

/-- The failure of a node whose script raised: a deadline that has passed is the node's own. -/
def ofEval (e : EvalError) : NodeError :=
  match e.kind with
  | .timeout limit => .timeout limit
  | _ => .eval e

/-- Whether the node was not run because of another one. -/
def isBlock : NodeError → Bool
  | .dependencyFailed _ => true
  | _ => false

end NodeError

/-- What a body is given. -/
structure Visit where
  /-- The node that runs. -/
  node : NodeId
  /-- The stored values of its parameters. -/
  args : List Value
  /-- The stored values of all nodes. -/
  values : Table NodeId Value
  /-- The values of the input units. -/
  inputs : InputTable
  /-- How long the body may take. -/
  limit : Option Period
  /-- How often this body has been called, this time included. -/
  call : Nat

/-- An argument by its position; there is nothing beyond the last. -/
def Visit.arg (v : Visit) (i : Nat) : Value := (v.args[i]?).getD .null

/-- The limit of the clock that the body can look at. -/
def Visit.deadline (v : Visit) : Option Duration := v.limit.map Period.toDuration

/-- What a body did on the way. -/
structure Footprint where
  /-- What it emitted and printed, and its clock. -/
  log : Log
  /-- The nodes whose stored values it asked for, each once. -/
  reads : List NodeId

namespace Footprint

/-- Nothing yet. -/
def start (v : Visit) : Footprint := ⟨.start v.deadline, []⟩

/-- Ask for the stored value of a node; that is on record even if there is none. -/
def read (v : Visit) (id : NodeId) (f : Footprint) : Option Value × Footprint :=
  (Table.get? id v.values,
    if id ∈ f.reads then f else { f with reads := f.reads ++ [id] })

/-- Emit a unit. -/
def emit (u : OutputUnit) (f : Footprint) : Footprint := { f with log := f.log.emit u }

/-- Print a line. -/
def print (line : String) (f : Footprint) : Footprint := { f with log := f.log.print line }

/-- Look at the clock: the limit, if it has been reached. -/
def look (f : Footprint) : Option Duration × Footprint :=
  let (limit, log) := f.log.look
  (limit, { f with log })

/-- Let time pass. -/
def sleep (d : Duration) (f : Footprint) : Footprint :=
  { f with log := { f.log with clock := f.log.clock.sleep d } }

/-- How long it took. -/
def elapsed (f : Footprint) : Duration := .ofNanos f.log.clock.elapsed

/-- The surroundings of a script that runs as a node: module-level names are those of other nodes,
and using one reads the stored value of its node. -/
def host (v : Visit) (globals : String → Option NodeId) : Host Footprint where
  global name f :=
    match globals name with
    | none => (none, f)
    | some id => f.read v id
  input id _ := Table.get? id v.inputs
  emit _ := emit
  print := print
  expired := look
  disorder := Helper.clash?

end Footprint

/-- How a body ended and what it did. -/
structure Outcome where
  /-- How it ended. -/
  ending : Ending NodeError Value
  /-- What it did. -/
  footprint : Footprint

/-- What a node does when it runs. -/
abbrev Body : Type := Visit → Outcome

namespace Body

/-- A body that does nothing. -/
def idle : Body := fun v => ⟨.value .null, .start v⟩

end Body

namespace Outcome

/-- What a run counts as: a panic is a failure, and so is a value that came when the time was up.
Nothing takes no time at all, so a body that took just as long as it may took too long; no theorem
depends on this border. -/
def result (limit : Option Period) (o : Outcome) : Except NodeError Value :=
  match o.ending with
  | .value v =>
    match limit.filter fun l => decide (l.nanos ≤ o.footprint.elapsed.nanos) with
    | some l => .error (.timeout l.toDuration)
    | none => .ok v
  | .error e => .error e
  | .panic m => .error (.panicked m)

end Outcome

end ReactiveScript

import ReactiveScript.Evaluation
import ReactiveScript.Graph
import ReactiveScript.Token

/-!
# Programs

A `Program` is a script split into nodes, one for each top-level statement: what every node depends
on, what it is given for each dependency, and what it runs.  The expression of a node reads the
values of its dependencies as the positional parameters `param0`, `param1`, …

* `Program.edges` — which node depends on which.
* `Program.install` — register all nodes with a graph.
* `Declaration.body` — what a node does when it runs.
-/

set_option autoImplicit false

namespace ReactiveScript

/-- Why a script could not be split. -/
inductive SplitError where
  /-- It is not well-formed. -/
  | parse (e : SyntaxError)
  /-- A statement would depend on itself through others. -/
  | cycle (node dependency : NodeId)
  /-- A kind of statement that cannot be a node. -/
  | unsupported (construct : String) (span : Span)
  /-- A function reads a variable that is assigned more than once. -/
  | ambiguousGlobal (function name : String)
  /-- The graph refused a node. -/
  | graph (e : GraphError)

/-- The wording of the reason. -/
def SplitError.text : SplitError → String
  | .parse e => "failed to parse script: " ++ e.text
  | .cycle n d => "dependency cycle: " ++ n.text ++ " depends on " ++ d.text
  | .unsupported construct span =>
    "top-level " ++ construct ++ " at " ++ span.text ++ " cannot be split into graph nodes"
  | .ambiguousGlobal f n =>
    "function '" ++ f ++ "' reads global '" ++ n ++ "', which is assigned more than once"
  | .graph e => e.text

/-- What a node runs. -/
inductive Task where
  /-- An expression that reads its dependencies as parameters. -/
  | expression (e : Expr)
  /-- Nothing: a function definition is a node so that its callers come after what it reads. -/
  | definition (d : FunctionDef)

/-- One node of a program. -/
structure Declaration where
  /-- Its id. -/
  id : NodeId
  /-- The function that is called, `def` for a definition, `expr` otherwise. -/
  kind : String
  /-- Where the statement starts. -/
  span : Span
  /-- The variable that gets the value. -/
  binds : Option String
  /-- What it depends on, in the order of ids. -/
  dependencies : List NodeId
  /-- The variable or function that each dependency stands for. -/
  arguments : List String
  /-- What it runs. -/
  task : Task
  /-- Whether it reads a variable that is only assigned by itself or later. -/
  forward : Bool

/-- A script split into nodes. -/
structure Program where
  /-- The name of the script. -/
  file : String
  /-- The nodes, in the order of the source. -/
  nodes : List Declaration
  /-- The functions of the script. -/
  functions : Table String FunctionDef
  /-- The node that a module-level name stands for when a function reads it. -/
  globals : Table String NodeId

/-- The name of a positional parameter. -/
def paramName (i : Nat) : String := "param" ++ toString i

namespace Declaration

/-- The scope of the expression of a node: its parameters, with the arguments of the visit. -/
def scope (d : Declaration) (v : Visit) : Scope :=
  .ofLocals ((List.range d.dependencies.length).map fun i => (paramName i, v.arg i))

/-- What evaluating the expression of a node looks like from the graph. -/
def outcome : Ending EvalError Value → Ending NodeError Value
  | .value v => .value v
  | .error e => .error (.ofEval e)
  | .panic m => .panic m

/-- What a node of a program does when it runs: it evaluates its expression as its own anchor. -/
def body (p : Program) (limit : Nat) (d : Declaration) : Body := fun v =>
  match d.task with
  | .definition _ => Body.idle v
  | .expression e =>
    let setting : Setting Footprint := ⟨p.file, limit, Footprint.host v (Table.get? · p.globals)⟩
    let machine := (Machine.fresh p.functions).anchored d.span
    let (ending, _, f) := e.eval setting (d.scope v) machine (.start v)
    ⟨outcome ending, f⟩

end Declaration

namespace Program

/-- The node with an id. -/
def declaration? (p : Program) (id : NodeId) : Option Declaration := p.nodes.find? (·.id == id)

/-- The node that binds a module-level name. -/
def global? (p : Program) (name : String) : Option NodeId := Table.get? name p.globals

/-- Which node depends on which: dependency first, in the order of the dependents. -/
def edges (p : Program) : List (NodeId × NodeId) :=
  p.nodes.flatMap fun d => d.dependencies.map fun dep => (dep, d.id)

/-- Register nodes with a graph. -/
def installAll (p : Program) (limit : Nat) : List Declaration → Graph → Except GraphError Graph
  | [], g => .ok g
  | d :: ds, g => do
    let g ← g.register d.id d.dependencies (d.body p limit)
    p.installAll limit ds g

/-- Register the nodes of a program with a graph. -/
def install (p : Program) (limit : Nat) (g : Graph) : Except GraphError Graph :=
  p.installAll limit p.nodes g

end Program

end ReactiveScript

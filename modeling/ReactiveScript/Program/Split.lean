import ReactiveScript.Grammar.Statement
import ReactiveScript.Program.Cycle
import ReactiveScript.Tree.Names

/-!
# Splitting a script into nodes

`Program.ofScript` turns every top-level statement into a node and finds out what it depends on.

* Ids and bindings come first: every statement gets an id from its kind and position, every
  assignment is a binding of its variable, and every definition makes a function known.
* A function depends on the functions it calls and on the variables it reads, each of which may be
  assigned only once.
* A statement depends on the functions it calls and, for each variable it reads, on the latest
  binding before it or, if there is none, on the first one of all.  A variable without a binding is
  left alone.
* In the expression of a statement, every variable it depends on is renamed to the parameter that
  takes its place.  Names that are also functions are not renamed.

Choices, loops and `return` cannot be nodes, and neither can a second definition of a function.
-/

set_option autoImplicit false

namespace ReactiveScript

/-- A top-level statement that becomes a node. -/
inductive Slot where
  /-- An expression whose value a variable may get. -/
  | statement (id : NodeId) (kind : String) (span : Span) (binds : Option String) (e : Expr)
  /-- A definition. -/
  | definition (id : NodeId) (span : Span) (d : FunctionDef)

namespace Slot

/-- The kind of a statement with an expression: the function that it calls. -/
def kindOf : Expr → String
  | .call _ f _ _ => f
  | _ => "expr"

/-- The slot of a statement with an expression. -/
def ofExpr (span : Span) (binds : Option String) (e : Expr) : Slot :=
  .statement (.ofStatement (kindOf e) span) (kindOf e) span binds e

/-- The slot of a statement, if it needs one; `known` holds the functions defined before. -/
def ofStmt (known : List String) : Stmt → Except SplitError (Option Slot)
  | .assign span target e => .ok (some (ofExpr span (some target) e))
  | .expr span e => .ok (some (ofExpr span none e))
  | .define span name params defSpan body =>
    if name ∈ known then .error (.unsupported "function redefinition" span)
    else .ok (some (.definition (.ofStatement "def" span) span ⟨name, params, body, defSpan⟩))
  | .choose span _ _ => .error (.unsupported "if statement" span)
  | .loop span _ _ _ => .error (.unsupported "for loop" span)
  | .result span _ => .error (.unsupported "return" span)
  | .pass _ => .ok none

/-- The function that a slot defines. -/
def defines? : Slot → Option FunctionDef
  | .definition _ _ d => some d
  | _ => none

/-- The slots of the statements of a script; `known` holds the functions defined before. -/
def ofStmts (known : List String) : List Stmt → Except SplitError (List Slot)
  | [] => .ok []
  | s :: ss => do
    let slot ← ofStmt known s
    let known := match s with
      | .define _ name _ _ _ => name :: known
      | _ => known
    let slots ← ofStmts known ss
    .ok (slot.toList ++ slots)

end Slot

/-- What the nodes of a script are looked up by. -/
structure Bindings where
  /-- The assignments of each variable: at which position of the script, and by which node. -/
  assigned : Table String (List (Nat × NodeId))
  /-- The node of each function. -/
  functions : Table String NodeId

namespace Bindings

/-- The assignments of a variable. -/
def of (b : Bindings) (name : String) : List (Nat × NodeId) :=
  (Table.get? name b.assigned).getD []

/-- What a slot at some position adds. -/
def add (b : Bindings) (position : Nat) : Slot → Bindings
  | .statement id _ _ (some target) _ =>
    { b with assigned := Table.put target (b.of target ++ [(position, id)]) b.assigned }
  | .statement _ _ _ none _ => b
  | .definition id _ d => { b with functions := Table.put d.name id b.functions }

/-- What slots from some position on add. -/
def addAll (b : Bindings) (position : Nat) : List Slot → Bindings
  | [] => b
  | s :: ss => (b.add position s).addAll (position + 1) ss

/-- The bindings of a script. -/
def ofSlots (slots : List Slot) : Bindings := addAll ⟨[], []⟩ 0 slots

/-- The node that assigns each variable last. -/
def globals (b : Bindings) : Table String NodeId :=
  b.assigned.filterMap fun (name, bound) => bound.getLast?.map fun (_, id) => (name, id)

/-- The functions among the callees, each with its node. -/
def calledNodes (b : Bindings) (calls : List String) : List (NodeId × String) :=
  calls.filterMap fun f => (Table.get? f b.functions).map fun id => (id, f)

/-- The node that a variable read at some position stands for, and whether it comes no earlier. -/
def resolve (b : Bindings) (position : Nat) (name : String) : Option (NodeId × Bool) :=
  match (b.of name).reverse.find? (·.1 < position) with
  | some (_, id) => some (id, false)
  | none => (b.of name).head?.map fun (_, id) => (id, true)

end Bindings

/-- Dependencies in the order of ids, each with the name it stands for. -/
structure Dependencies where
  /-- The nodes. -/
  nodes : List NodeId
  /-- What each stands for. -/
  names : List String

namespace Dependencies

/-- The dependencies of a list of nodes with names; a later name for a node counts. -/
def ofPairs (pairs : List (NodeId × String)) : Dependencies :=
  let table := Table.ofList pairs
  let nodes := NodeId.set (Table.keys table)
  ⟨nodes, nodes.filterMap (Table.get? · table)⟩

/-- The parameter that takes the place of each name, functions left out. -/
def renames (b : Bindings) (d : Dependencies) : Table String String :=
  Table.ofList ((d.names.zipIdx.filter fun (name, _) => !Table.has name b.functions).map
    fun (name, i) => (name, paramName i))

end Dependencies

namespace Slot

/-- The variables that a function depends on. -/
def globalNodes (b : Bindings) (function : String) :
    List String → Except SplitError (List (NodeId × String))
  | [] => .ok []
  | name :: names =>
    match b.of name with
    | [] => globalNodes b function names
    | [(_, id)] => (globalNodes b function names).map ((id, name) :: ·)
    | _ => .error (.ambiguousGlobal function name)

/-- The node of a definition. -/
def declareFunction (b : Bindings) (id : NodeId) (span : Span) (d : FunctionDef) :
    Except SplitError Declaration := do
  let refs := d.references
  let globals ← globalNodes b d.name refs.names
  let deps := Dependencies.ofPairs (b.calledNodes refs.calls ++ globals)
  .ok ⟨id, "def", span, none, deps.nodes, deps.names, .definition d, false⟩

/-- The node of a statement at some position. -/
def declareStatement (b : Bindings) (position : Nat) (id : NodeId) (kind : String) (span : Span)
    (binds : Option String) (e : Expr) : Declaration :=
  let refs := e.references
  let resolved := refs.names.filterMap fun name =>
    (b.resolve position name).map fun (dep, forward) => (dep, name, forward)
  let deps := Dependencies.ofPairs
    (resolved.map (fun (dep, name, _) => (dep, name)) ++ b.calledNodes refs.calls)
  ⟨id, kind, span, binds, deps.nodes, deps.names, .expression (e.rename (deps.renames b)),
    resolved.any fun (_, _, forward) => forward⟩

/-- The node of the slot at some position. -/
def declare (b : Bindings) (position : Nat) : Slot → Except SplitError Declaration
  | .definition id span d => declareFunction b id span d
  | .statement id kind span binds e => .ok (declareStatement b position id kind span binds e)

/-- The nodes of the slots from some position on. -/
def declareAll (b : Bindings) (position : Nat) : List Slot → Except SplitError (List Declaration)
  | [] => .ok []
  | s :: ss => do
    let d ← s.declare b position
    let ds ← declareAll b (position + 1) ss
    .ok (d :: ds)

end Slot

namespace Program

/-- Split a script into nodes. -/
def ofScript (file : String) (script : Script) : Except SplitError Program := do
  let slots ← Slot.ofStmts [] script.body
  let b := Bindings.ofSlots slots
  let nodes ← Slot.declareAll b 0 slots
  match Cycle.find? nodes with
  | some e => .error (.cycle e.node e.dependency)
  | none =>
    let functions := Table.ofList (slots.filterMap fun s => s.defines?.map fun d => (d.name, d))
    .ok ⟨file, nodes, functions, b.globals⟩

/-- Split the script that a text spells into nodes. -/
def ofSource (file source : String) : Except SplitError Program :=
  match Script.ofSource source with
  | .error e => .error (.parse e)
  | .ok script => ofScript file script

end Program

end ReactiveScript

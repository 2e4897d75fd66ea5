import ReactiveScript.Component
import ReactiveScript.Evaluation.Machine
import ReactiveScript.Evaluation.Operator
import ReactiveScript.Helper

/-!
# Evaluation

Expressions and statements are evaluated by recursion on their trees.  The one thing that does not
go down the tree is calling a function of the script, so evaluation takes that as a parameter,
`invoke`, and is tied to itself by recursion on the number of calls that may still be made inside
each other: `FunctionDef.invoke` with none left fails.  Every evaluation therefore ends.

* `Expr.evalWith`, `Stmt.execWith` — evaluation with a given way to call functions.
* `FunctionDef.invoke` — a call, with a bound on further calls inside it.
* `Expr.eval`, `Script.run` — an expression in a scope, and a whole script from top to bottom.

Units are numbered under the top-level statement that is being run (the anchor), so that a statement
emits the same ids whether it runs as part of the script or alone.
-/

set_option autoImplicit false

namespace ReactiveScript

/-- What stays the same during a run. -/
structure Setting (σ : Type) where
  /-- The name of the script, which the ids of units depend on. -/
  file : String
  /-- How many calls may be under way inside each other. -/
  limit : Nat
  /-- The surroundings. -/
  host : Host σ

/-- A way to call functions of the script. -/
abbrev Invocation (σ : Type) : Type := FunctionDef → Arguments → Span → Eval σ Value

/-- What a statement did: it went on to the next one, or it ended the call. -/
inductive Flow where
  /-- The next statement follows, in this scope. -/
  | next (scope : Scope)
  /-- The call ends with a value. -/
  | result (value : Value)

variable {σ : Type}

/-- Whether a name is that of a function that is there without being defined. -/
def isBuiltin (name : String) : Bool :=
  (Helper.ofName? name).isSome || name == "print" || (Component.ofName? name).isSome

namespace Setting

/-! ## Names and deadlines -/

/-- Fail if the deadline has passed. -/
def checkDeadline (c : Setting σ) (span : Span) : Eval σ Unit := do
  match ← Eval.ask c.host.expired with
  | some limit => Eval.fail (.timeout limit) span
  | none => Eval.value ()

/-- The value of a variable: of the call, of the module, or from the surroundings. -/
def lookup (c : Setting σ) (scope : Scope) (name : String) (span : Span) : Eval σ Value := do
  match Table.get? name scope.locals with
  | some v => Eval.value v
  | none =>
    match Table.get? name (← Eval.machine).globals with
    | some v => Eval.value v
    | none =>
      match ← Eval.ask (c.host.global name) with
      | some v => Eval.value v
      | none => Eval.fail (.name name) span

/-- Give a variable a value. -/
def assign (_ : Setting σ) (scope : Scope) (name : String) (v : Value) : Eval σ Scope :=
  if scope.isModule then do
    Eval.change fun m => { m with globals := Table.put name v m.globals }
    Eval.value scope
  else Eval.value { scope with locals := Table.put name v scope.locals }

/-! ## Calls -/

/-- The site of the next unit that a call emits; the call is counted. -/
def nextSite (c : Setting σ) (call : Span) : Eval σ Site := do
  let m ← Eval.machine
  Eval.change (Machine.count call)
  Eval.value ⟨c.file, m.anchor, call, m.occurrence call⟩

/-- Call a component: it emits one unit, or fails and emits none. -/
def callComponent (c : Setting σ) (component : Component) (args : Arguments) (span : Span) :
    Eval σ Value := do
  let site ← c.nextSite span
  let id := UnitId.ofSite component.name site
  let state ← Eval.ask fun s => (c.host.input id s, s)
  let (unit, result) ← Eval.ofChecked span (component.render id args state)
  Eval.tell (c.host.emit site unit)
  Eval.value result

/-- Call a helper. -/
def callHelper (c : Setting σ) (h : Helper) (args : Arguments) (span : Span) : Eval σ Value :=
  match h.disordered? args with
  | none => Eval.ofChecked span (h.call args)
  | some items =>
    match c.host.disorder items with
    | some pair => Eval.ofChecked span (Helper.unordered pair)
    | none => Eval.panic Helper.disorderMessage

/-- Call a built-in function. -/
def callBuiltin (c : Setting σ) (function : String) (args : Arguments) (span : Span) :
    Eval σ Value := do
  match Component.ofName? function with
  | some component => c.callComponent component args span
  | none =>
    if function = "print" then
      let line ← Eval.ofChecked span (printedLine args)
      Eval.tell (c.host.print line)
      Eval.value .null
    else
      match Helper.ofName? function with
      | some h => c.callHelper h args span
      | none => Eval.fail (.name function) span

/-- Call a function by name; those of the script hide the built-in ones. -/
def call (c : Setting σ) (invoke : Invocation σ) (function : String) (args : Arguments)
    (span : Span) : Eval σ Value := do
  c.checkDeadline span
  match Table.get? function (← Eval.machine).functions with
  | some d => invoke d args span
  | none => c.callBuiltin function args span

end Setting

/-! ## Expressions -/

/-- The text of a value in a format string.  Only a number takes places, and no more than there is
room for. -/
def formatted (v : Value) (places : Option Nat) : Eval σ String :=
  match places, v with
  | some p, .number n =>
    if p ≤ Number.maxPlaces then Eval.value (Number.fixed p n)
    else Eval.panic "Formatting argument out of range"
  | _, _ => Eval.value v.display

/-- The key of a dict that a value stands for. -/
def dictKey (v : Value) : Checked String :=
  match v.asKey? with
  | some k => .ok k
  | none => typeError ("dict keys must be str or number, not " ++ v.typeName)

namespace Expr

mutual

/-- Evaluate an expression. -/
def evalWith (c : Setting σ) (invoke : Invocation σ) (scope : Scope) : Expr → Eval σ Value
  | .literal _ v => Eval.value v
  | .name span n => c.lookup scope n span
  | .format _ pieces => do
    let s ← evalPieces c invoke scope "" pieces
    Eval.value (.text s)
  | .list _ es => do
    let vs ← evalAll c invoke scope es
    Eval.value (.list vs)
  | .dict span es => do
    let entries ← evalEntries c invoke scope span [] es
    Eval.value (.dict entries)
  | .unary span op e => do
    let v ← evalWith c invoke scope e
    Eval.ofChecked span (op.apply v)
  | .binary span op l r => do
    let a ← evalWith c invoke scope l
    let b ← evalWith c invoke scope r
    Eval.ofChecked span (op.apply a b)
  | .logical _ op l r => do
    let a ← evalWith c invoke scope l
    match op, a.isTruthy with
    | .and, false => Eval.value a
    | .or, true => Eval.value a
    | _, _ => evalWith c invoke scope r
  | .call span f args kws => do
    let positional ← evalAll c invoke scope args
    let keywords ← evalKeywords c invoke scope [] kws
    c.call invoke f ⟨positional, keywords⟩ span
  | .index span e i => do
    let v ← evalWith c invoke scope e
    let w ← evalWith c invoke scope i
    Eval.ofChecked span (v.item w)
  | .attribute span e field => do
    let v ← evalWith c invoke scope e
    Eval.ofChecked span (v.field field)

/-- Evaluate the pieces of a format string and append their texts. -/
def evalPieces (c : Setting σ) (invoke : Invocation σ) (scope : Scope) (text : String) :
    List Piece → Eval σ String
  | [] => Eval.value text
  | .text s :: ps => evalPieces c invoke scope (text ++ s) ps
  | .hole e places :: ps => do
    let v ← evalWith c invoke scope e
    let s ← formatted v places
    evalPieces c invoke scope (text ++ s) ps

/-- Evaluate expressions from left to right. -/
def evalAll (c : Setting σ) (invoke : Invocation σ) (scope : Scope) :
    List Expr → Eval σ (List Value)
  | [] => Eval.value []
  | e :: es => do
    let v ← evalWith c invoke scope e
    let vs ← evalAll c invoke scope es
    Eval.value (v :: vs)

/-- Evaluate the entries of a dict, each key before its value, and store them. -/
def evalEntries (c : Setting σ) (invoke : Invocation σ) (scope : Scope) (span : Span)
    (entries : Table String Value) : List (Expr × Expr) → Eval σ (Table String Value)
  | [] => Eval.value entries
  | (k, e) :: es => do
    let key ← evalWith c invoke scope k
    let key ← Eval.ofChecked span (dictKey key)
    let v ← evalWith c invoke scope e
    evalEntries c invoke scope span (Table.put key v entries) es

/-- Evaluate keyword arguments. -/
def evalKeywords (c : Setting σ) (invoke : Invocation σ) (scope : Scope)
    (keywords : Table String Value) : List (String × Expr) → Eval σ (Table String Value)
  | [] => Eval.value keywords
  | (k, e) :: es => do
    let v ← evalWith c invoke scope e
    evalKeywords c invoke scope (Table.put k v keywords) es

end

end Expr

/-! ## Statements -/

/-- Run a block for each of the items, as long as it goes on to the next. -/
def forEach (run : Scope → Value → Eval σ Flow) : List Value → Scope → Eval σ Flow
  | [], scope => fun m s => (.value (.next scope), m, s)
  | v :: vs, scope => fun m s =>
    match run scope v m s with
    | (.value (.next scope), m, s) => forEach run vs scope m s
    | (.value (.result r), m, s) => (.value (.result r), m, s)
    | (.error e, m, s) => (.error e, m, s)
    | (.panic p, m, s) => (.panic p, m, s)

namespace Stmt

mutual

/-- Execute a statement in a scope. -/
def execWith (c : Setting σ) (invoke : Invocation σ) : Stmt → Scope → Eval σ Flow
  | .assign _ target e, scope => do
    let v ← e.evalWith c invoke scope
    let scope ← c.assign scope target v
    Eval.value (.next scope)
  | .expr _ e, scope => do
    let _ ← e.evalWith c invoke scope
    Eval.value (.next scope)
  | .define _ name params span body, scope => do
    Eval.change fun m =>
      { m with functions := Table.put name ⟨name, params, body, span⟩ m.functions }
    Eval.value (.next scope)
  | .result _ none, _ => Eval.value (.result .null)
  | .result _ (some e), scope => do
    let v ← e.evalWith c invoke scope
    Eval.value (.result v)
  | .choose _ branches otherwise, scope =>
    execBranches c invoke branches (execBlock c invoke otherwise) scope
  | .loop span target series body, scope => do
    let v ← series.evalWith c invoke scope
    let items ← Eval.ofChecked series.span v.items
    forEach (fun scope item => do
      c.checkDeadline span
      let scope ← c.assign scope target item
      execBlock c invoke body scope) items scope
  | .pass _, scope => Eval.value (.next scope)

/-- Execute the statements of a block until one ends the call. -/
def execBlock (c : Setting σ) (invoke : Invocation σ) : List Stmt → Scope → Eval σ Flow
  | [], scope => Eval.value (.next scope)
  | s :: rest, scope => do
    match ← execWith c invoke s scope with
    | .next scope => execBlock c invoke rest scope
    | .result v => Eval.value (.result v)

/-- Execute the first branch whose test holds. -/
def execBranches (c : Setting σ) (invoke : Invocation σ) :
    List (Expr × List Stmt) → (Scope → Eval σ Flow) → Scope → Eval σ Flow
  | [], otherwise, scope => otherwise scope
  | (test, body) :: rest, otherwise, scope => do
    let v ← test.evalWith c invoke scope
    if v.isTruthy then execBlock c invoke body scope
    else execBranches c invoke rest otherwise scope

end

end Stmt

/-! ## Functions of the script -/

/-- Run the body of a call one level deeper.  An error leaves the call's frame in its trace, and
both a value and an error bring the depth back. -/
def inCall (function : String) (span : Span) (body : Eval σ Flow) : Eval σ Value := fun m s =>
  match body { m with depth := m.depth + 1 } s with
  | (.value (.result v), m, s) => (.value v, { m with depth := m.depth - 1 }, s)
  | (.value (.next _), m, s) => (.value .null, { m with depth := m.depth - 1 }, s)
  | (.error e, m, s) =>
    (.error { e with trace := e.trace ++ [⟨function, span⟩] }, { m with depth := m.depth - 1 }, s)
  | (.panic p, m, s) => (.panic p, m, s)

/-- Call a function of the script when `n` more calls may be under way inside each other. -/
def FunctionDef.invoke (c : Setting σ) : Nat → Invocation σ
  | 0, _, _, span => Eval.fail (.recursion c.limit) span
  | n + 1, d, args, span => do
    let locals ← Eval.ofChecked span (args.bindAll d)
    inCall d.name span (Stmt.execBlock c (FunctionDef.invoke c n) d.body (Scope.ofLocals locals))

/-- The way to call functions from a machine: as deep as the limit still allows. -/
def Setting.invocation (c : Setting σ) (m : Machine) : Invocation σ :=
  FunctionDef.invoke c (c.limit - m.depth)

/-! ## Whole expressions and scripts -/

/-- Evaluate an expression in a scope. -/
def Expr.eval (c : Setting σ) (scope : Scope) (e : Expr) : Eval σ Value := fun m s =>
  e.evalWith c (c.invocation m) scope m s

/-- Execute a top-level statement, as its own anchor.  Ending a call means nothing here. -/
def Stmt.runTop (c : Setting σ) (stmt : Stmt) : Eval σ Unit := fun m s =>
  (do
    Eval.change (Machine.anchored stmt.span)
    let _ ← stmt.execWith c (c.invocation m) .module
    Eval.value ()) m s

/-- Execute the statements of a script from top to bottom. -/
def Stmt.runAll (c : Setting σ) : List Stmt → Eval σ Unit
  | [] => Eval.value ()
  | stmt :: rest => do
    stmt.runTop c
    runAll c rest

/-- Execute a script from top to bottom. -/
def Script.run (c : Setting σ) (script : Script) : Eval σ Unit := Stmt.runAll c script.body

end ReactiveScript

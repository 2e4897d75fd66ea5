import ReactiveScript.Evaluation

/-!
# Evaluation step by step

The evaluator goes down syntax trees by recursion, and a call goes on inside it, so what it does at
one moment is hidden in the recursion.  Here the same work is done by an abstract machine whose steps
are small: a step looks at one node, item or argument, and what remains to be done is data, a stack of
frames.  No step evaluates or executes anything by itself.

* `Stepwise.Task`, `Stepwise.Frame`, `Stepwise.Stack` — what can be started, what waits for the
  outcome of a task, and all that waits.
* `Stepwise.Configuration.step` — the next configuration.  Nothing gets stuck: a configuration
  without a next one has come to an end.
* `Stepwise.Leads` — some steps, with the depth of calls bounded all the way.

Tasks, frames and stacks are indexed by the kind of outcome that they have or wait for, so that an
outcome always fits the frame that it is handed to.
-/

set_option autoImplicit false

namespace ReactiveScript

namespace Stepwise

/-- The kinds of outcome. -/
inductive Kind where
  /-- The value of an expression. -/
  | value
  /-- The values of expressions, in order. -/
  | values
  /-- Values by key or by keyword. -/
  | entries
  /-- The text of a format string. -/
  | text
  /-- What a statement did. -/
  | flow
  /-- Nothing. -/
  | nothing

/-- The outcomes of a kind. -/
@[reducible] def Kind.type : Kind → Type
  | .value => Value
  | .values => List Value
  | .entries => Table String Value
  | .text => String
  | .flow => Flow
  | .nothing => Unit

/-- Something to evaluate or to execute. -/
inductive Task : Kind → Type where
  /-- An expression. -/
  | expr (scope : Scope) (e : Expr) : Task .value
  /-- Expressions from left to right. -/
  | all (scope : Scope) (es : List Expr) : Task .values
  /-- The pieces of a format string, behind the text so far. -/
  | pieces (scope : Scope) (text : String) (ps : List Piece) : Task .text
  /-- The entries of a dict, on top of those so far. -/
  | entries (scope : Scope) (span : Span) (done : Table String Value)
      (es : List (Expr × Expr)) : Task .entries
  /-- Keyword arguments, on top of those so far. -/
  | keywords (scope : Scope) (done : Table String Value) (es : List (String × Expr)) :
      Task .entries
  /-- A call by name. -/
  | call (function : String) (args : Arguments) (span : Span) : Task .value
  /-- A call of a function of the script. -/
  | invoke (d : FunctionDef) (args : Arguments) (span : Span) : Task .value
  /-- A statement. -/
  | stmt (stmt : Stmt) (scope : Scope) : Task .flow
  /-- A block. -/
  | block (ss : List Stmt) (scope : Scope) : Task .flow
  /-- The first branch whose test holds, or the last block. -/
  | branches (bs : List (Expr × List Stmt)) (otherwise : List Stmt) (scope : Scope) : Task .flow
  /-- A block for each of the items. -/
  | items (span : Span) (target : String) (body : List Stmt) (items : List Value) (scope : Scope) :
      Task .flow
  /-- Top-level statements. -/
  | script (ss : List Stmt) : Task .nothing

/-- What waits for an outcome of one kind, to go on to an outcome of another. -/
inductive Frame : Kind → Kind → Type where
  /-- A format string waits for its text. -/
  | format : Frame .text .value
  /-- A list waits for its items. -/
  | list : Frame .values .value
  /-- A dict waits for its entries. -/
  | dict : Frame .entries .value
  /-- An operator waits for its operand. -/
  | unary (span : Span) (op : UnaryOp) : Frame .value .value
  /-- An operator waits for its left operand, with the right one to follow. -/
  | left (scope : Scope) (span : Span) (op : BinaryOp) (r : Expr) : Frame .value .value
  /-- An operator waits for its right operand. -/
  | right (span : Span) (op : BinaryOp) (a : Value) : Frame .value .value
  /-- A logical operator waits for its left operand; the right one may follow. -/
  | logical (scope : Scope) (op : LogicalOp) (r : Expr) : Frame .value .value
  /-- A call waits for its positional arguments, with the keyword arguments to follow. -/
  | positional (scope : Scope) (span : Span) (function : String) (kws : List (String × Expr)) :
      Frame .values .value
  /-- A call waits for its keyword arguments. -/
  | keywords (span : Span) (function : String) (vs : List Value) : Frame .entries .value
  /-- A subscript waits for the collection, with the index to follow. -/
  | collection (scope : Scope) (span : Span) (i : Expr) : Frame .value .value
  /-- A subscript waits for the index. -/
  | index (span : Span) (v : Value) : Frame .value .value
  /-- A field waits for its dict. -/
  | attribute (span : Span) (field : String) : Frame .value .value
  /-- A format string waits for the value in a hole, with pieces to follow. -/
  | hole (scope : Scope) (text : String) (places : Option Nat) (ps : List Piece) :
      Frame .value .text
  /-- A row of expressions waits for the first value. -/
  | head (scope : Scope) (es : List Expr) : Frame .value .values
  /-- A row of expressions waits for the other values. -/
  | tail (v : Value) : Frame .values .values
  /-- A dict waits for a key, with its value and more entries to follow. -/
  | key (scope : Scope) (span : Span) (done : Table String Value) (e : Expr)
      (es : List (Expr × Expr)) : Frame .value .entries
  /-- A dict waits for the value of a key, with more entries to follow. -/
  | entry (scope : Scope) (span : Span) (done : Table String Value) (k : String)
      (es : List (Expr × Expr)) : Frame .value .entries
  /-- A call waits for the value of a keyword, with more of them to follow. -/
  | keyword (scope : Scope) (done : Table String Value) (k : String)
      (es : List (String × Expr)) : Frame .value .entries
  /-- An assignment waits for the value. -/
  | assign (scope : Scope) (target : String) : Frame .value .flow
  /-- A statement waits for a value that it drops. -/
  | drop (scope : Scope) : Frame .value .flow
  /-- The end of a call waits for the value of the call. -/
  | result : Frame .value .flow
  /-- A choice waits for the value of a test. -/
  | test (scope : Scope) (body : List Stmt) (rest : List (Expr × List Stmt))
      (otherwise : List Stmt) : Frame .value .flow
  /-- A loop waits for its collection. -/
  | series (scope : Scope) (span : Span) (target : String) (place : Span) (body : List Stmt) :
      Frame .value .flow
  /-- A loop waits for the block on one item, with more items to follow. -/
  | item (span : Span) (target : String) (body : List Stmt) (items : List Value) :
      Frame .flow .flow
  /-- A block waits for a statement, with more of them to follow. -/
  | next (rest : List Stmt) : Frame .flow .flow
  /-- A call waits for the body of the function. -/
  | body (function : String) (span : Span) : Frame .flow .value
  /-- A script waits for a top-level statement, with more of them to follow. -/
  | top (rest : List Stmt) : Frame .flow .nothing

/-- What follows once one node, item or argument has been looked at. -/
inductive Move (b : Kind) where
  /-- There is an outcome. -/
  | give (y : b.type)
  /-- Another task takes over. -/
  | go (t : Task b)
  /-- A frame waits for another task. -/
  | push {a : Kind} (frame : Frame a b) (t : Task a)

variable {σ : Type}

/-- There is the outcome that was computed. -/
def giving {b : Kind} (x : Eval σ b.type) : Eval σ (Move b) := x >>= fun y => Eval.value (.give y)

/-! ## Single moves -/

/-- Look at an expression. -/
def beginExpr (c : Setting σ) (scope : Scope) : Expr → Eval σ (Move .value)
  | .literal _ v => Eval.value (.give v)
  | .name span n => giving (c.lookup scope n span)
  | .format _ ps => Eval.value (.push .format (.pieces scope "" ps))
  | .list _ es => Eval.value (.push .list (.all scope es))
  | .dict span es => Eval.value (.push .dict (.entries scope span [] es))
  | .unary span op e => Eval.value (.push (.unary span op) (.expr scope e))
  | .binary span op l r => Eval.value (.push (.left scope span op r) (.expr scope l))
  | .logical _ op l r => Eval.value (.push (.logical scope op r) (.expr scope l))
  | .call span f args kws => Eval.value (.push (.positional scope span f kws) (.all scope args))
  | .index span e i => Eval.value (.push (.collection scope span i) (.expr scope e))
  | .attribute span e field => Eval.value (.push (.attribute span field) (.expr scope e))

/-- Look at a statement. -/
def beginStmt (scope : Scope) : Stmt → Eval σ (Move .flow)
  | .assign _ target e => Eval.value (.push (.assign scope target) (.expr scope e))
  | .expr _ e => Eval.value (.push (.drop scope) (.expr scope e))
  | .define _ name params span body => do
    Eval.change fun m =>
      { m with functions := Table.put name ⟨name, params, body, span⟩ m.functions }
    Eval.value (.give (.next scope))
  | .result _ none => Eval.value (.give (.result .null))
  | .result _ (some e) => Eval.value (.push .result (.expr scope e))
  | .choose _ bs otherwise => Eval.value (.go (.branches bs otherwise scope))
  | .loop span target series body =>
    Eval.value (.push (.series scope span target series.span body) (.expr scope series))
  | .pass _ => Eval.value (.give (.next scope))

/-- Enter a function of the script, unless as many calls are under way as may be. -/
def enter (c : Setting σ) (d : FunctionDef) (args : Arguments) (span : Span) :
    Eval σ (Move .value) := do
  let m ← Eval.machine
  if c.limit ≤ m.depth then Eval.fail (.recursion c.limit) span
  else do
    let locals ← Eval.ofChecked span (args.bindAll d)
    Eval.change fun m => { m with depth := m.depth + 1 }
    Eval.value (.push (.body d.name span) (.block d.body (Scope.ofLocals locals)))

/-- Begin a task. -/
def Task.begin (c : Setting σ) : {a : Kind} → Task a → Eval σ (Move a)
  | _, .expr scope e => beginExpr c scope e
  | _, .all _ [] => Eval.value (.give [])
  | _, .all scope (e :: es) => Eval.value (.push (.head scope es) (.expr scope e))
  | _, .pieces _ text [] => Eval.value (.give text)
  | _, .pieces scope text (.text s :: ps) => Eval.value (.go (.pieces scope (text ++ s) ps))
  | _, .pieces scope text (.hole e places :: ps) =>
    Eval.value (.push (.hole scope text places ps) (.expr scope e))
  | _, .entries _ _ done [] => Eval.value (.give done)
  | _, .entries scope span done ((k, e) :: es) =>
    Eval.value (.push (.key scope span done e es) (.expr scope k))
  | _, .keywords _ done [] => Eval.value (.give done)
  | _, .keywords scope done ((k, e) :: es) =>
    Eval.value (.push (.keyword scope done k es) (.expr scope e))
  | _, .call f args span => do
    c.checkDeadline span
    match Table.get? f (← Eval.machine).functions with
    | some d => Eval.value (.go (.invoke d args span))
    | none => giving (c.callBuiltin f args span)
  | _, .invoke d args span => enter c d args span
  | _, .stmt s scope => beginStmt scope s
  | _, .block [] scope => Eval.value (.give (.next scope))
  | _, .block (s :: rest) scope => Eval.value (.push (.next rest) (.stmt s scope))
  | _, .branches [] otherwise scope => Eval.value (.go (.block otherwise scope))
  | _, .branches ((test, body) :: rest) otherwise scope =>
    Eval.value (.push (.test scope body rest otherwise) (.expr scope test))
  | _, .items _ _ _ [] scope => Eval.value (.give (.next scope))
  | _, .items span target body (v :: vs) scope => do
    c.checkDeadline span
    let scope ← c.assign scope target v
    Eval.value (.push (.item span target body vs) (.block body scope))
  | _, .script [] => Eval.value (.give ())
  | _, .script (s :: rest) => do
    Eval.change (Machine.anchored s.span)
    Eval.value (.push (.top rest) (.stmt s .module))

/-- Go on with the outcome that a frame has waited for. -/
def Frame.resume (c : Setting σ) : {a b : Kind} → Frame a b → a.type → Eval σ (Move b)
  | _, _, .format, s => Eval.value (.give (.text s))
  | _, _, .list, vs => Eval.value (.give (.list vs))
  | _, _, .dict, es => Eval.value (.give (.dict es))
  | _, _, .unary span op, v => giving (Eval.ofChecked span (op.apply v))
  | _, _, .left scope span op r, a => Eval.value (.push (.right span op a) (.expr scope r))
  | _, _, .right span op a, b => giving (Eval.ofChecked span (op.apply a b))
  | _, _, .logical scope .and r, a =>
    if a.isTruthy then Eval.value (.go (.expr scope r)) else Eval.value (.give a)
  | _, _, .logical scope .or r, a =>
    if a.isTruthy then Eval.value (.give a) else Eval.value (.go (.expr scope r))
  | _, _, .positional scope span f kws, vs =>
    Eval.value (.push (.keywords span f vs) (.keywords scope [] kws))
  | _, _, .keywords span f vs, kws => Eval.value (.go (.call f ⟨vs, kws⟩ span))
  | _, _, .collection scope span i, v => Eval.value (.push (.index span v) (.expr scope i))
  | _, _, .index span v, w => giving (Eval.ofChecked span (v.item w))
  | _, _, .attribute span field, v => giving (Eval.ofChecked span (v.field field))
  | _, _, .hole scope text places ps, v => do
    let s ← formatted v places
    Eval.value (.go (.pieces scope (text ++ s) ps))
  | _, _, .head scope es, v => Eval.value (.push (.tail v) (.all scope es))
  | _, _, .tail v, vs => Eval.value (.give (v :: vs))
  | _, _, .key scope span done e es, v => do
    let k ← Eval.ofChecked span (dictKey v)
    Eval.value (.push (.entry scope span done k es) (.expr scope e))
  | _, _, .entry scope span done k es, v =>
    Eval.value (.go (.entries scope span (Table.put k v done) es))
  | _, _, .keyword scope done k es, v =>
    Eval.value (.go (.keywords scope (Table.put k v done) es))
  | _, _, .assign scope target, v => do
    let scope ← c.assign scope target v
    Eval.value (.give (.next scope))
  | _, _, .drop scope, _ => Eval.value (.give (.next scope))
  | _, _, .result, v => Eval.value (.give (.result v))
  | _, _, .test scope ss rest otherwise, v =>
    if v.isTruthy then Eval.value (.go (.block ss scope))
    else Eval.value (.go (.branches rest otherwise scope))
  | _, _, .series scope span target place ss, v => do
    let vs ← Eval.ofChecked place v.items
    Eval.value (.go (.items span target ss vs scope))
  | _, _, .item span target ss vs, .next scope =>
    Eval.value (.go (.items span target ss vs scope))
  | _, _, .item .., .result v => Eval.value (.give (.result v))
  | _, _, .next rest, .next scope => Eval.value (.go (.block rest scope))
  | _, _, .next _, .result v => Eval.value (.give (.result v))
  | _, _, .body _ _, flow => do
    Eval.change fun m => { m with depth := m.depth - 1 }
    match flow with
    | .next _ => Eval.value (.give .null)
    | .result v => Eval.value (.give v)
  | _, _, .top rest, _ => Eval.value (.go (.script rest))

/-- What a frame makes of an error that passes it: the end of a call adds itself to the trace and
brings the depth back. -/
def Frame.pass : {a b : Kind} → Frame a b → EvalError → Machine → EvalError × Machine
  | _, _, .body function span, e, m =>
    ({ e with trace := e.trace ++ [⟨function, span⟩] }, { m with depth := m.depth - 1 })
  | _, _, _, e, m => (e, m)

/-! ## Steps -/

/-- All that waits: for an outcome of one kind, to go on to an outcome of another in the end. -/
inductive Stack : Kind → Kind → Type where
  /-- Nothing waits. -/
  | nil {r : Kind} : Stack r r
  /-- A frame waits, and others wait for what it goes on to. -/
  | cons {a b r : Kind} (frame : Frame a b) (rest : Stack b r) : Stack a r

/-- A moment of a run that goes for an outcome of a kind. -/
inductive Configuration (σ : Type) (r : Kind) where
  /-- A task is about to begin. -/
  | begin {a : Kind} (t : Task a) (k : Stack a r) (m : Machine) (s : σ)
  /-- An outcome is handed to what waits for it. -/
  | resume {a : Kind} (y : a.type) (k : Stack a r) (m : Machine) (s : σ)
  /-- An error passes what waits. -/
  | unwind {a : Kind} (e : EvalError) (k : Stack a r) (m : Machine) (s : σ)
  /-- There was a panic. -/
  | panicked (message : String) (m : Machine) (s : σ)

namespace Configuration

variable {a r : Kind}

/-- The configuration after a move. -/
def onto : Ending EvalError (Move a) × Machine × σ → Stack a r → Configuration σ r
  | (.value (.give y), m, s), k => .resume y k m s
  | (.value (.go t), m, s), k => .begin t k m s
  | (.value (.push frame t), m, s), k => .begin t (.cons frame k) m s
  | (.error e, m, s), k => .unwind e k m s
  | (.panic p, m, s), _ => .panicked p m s

/-- The configuration in which a computation has ended, with what waited for it. -/
def after : Ending EvalError a.type × Machine × σ → Stack a r → Configuration σ r
  | (.value y, m, s), k => .resume y k m s
  | (.error e, m, s), k => .unwind e k m s
  | (.panic p, m, s), _ => .panicked p m s

/-- The next configuration, unless the run is over. -/
def step (c : Setting σ) : Configuration σ r → Option (Configuration σ r)
  | .begin t k m s => some (onto (t.begin c m s) k)
  | .resume y (.cons frame k) m s => some (onto (frame.resume c y m s) k)
  | .unwind e (.cons frame k) m s => some (.unwind (frame.pass e m).1 k (frame.pass e m).2 s)
  | .resume _ .nil _ _ => none
  | .unwind _ .nil _ _ => none
  | .panicked _ _ _ => none

/-- How many calls are under way inside each other. -/
def depth : Configuration σ r → Nat
  | .begin _ _ m _ => m.depth
  | .resume _ _ m _ => m.depth
  | .unwind _ _ m _ => m.depth
  | .panicked _ m _ => m.depth

/-- Where nothing waits, the end of a computation is the end of the run. -/
theorem step_after_nil (c : Setting σ) (e : Ending EvalError r.type × Machine × σ) :
    (after e .nil).step c = none := by
  rcases e with ⟨_ | _ | _, m, s⟩ <;> rfl

end Configuration

/-- One configuration comes from another by a finite number of steps, with no more calls under way
at any moment than a bound allows. -/
inductive Leads (c : Setting σ) (bound : Nat) {r : Kind} :
    Configuration σ r → Configuration σ r → Prop
  /-- By no step. -/
  | refl {x : Configuration σ r} (hx : x.depth ≤ bound) : Leads c bound x x
  /-- By one step and then others. -/
  | step {x y z : Configuration σ r} (hx : x.depth ≤ bound) (hxy : x.step c = some y)
      (hyz : Leads c bound y z) : Leads c bound x z

theorem Leads.trans {c : Setting σ} {bound : Nat} {r : Kind} {x y z : Configuration σ r}
    (hxy : Leads c bound x y) (hyz : Leads c bound y z) : Leads c bound x z := by
  induction hxy with
  | refl _ => exact hyz
  | step hx hstep _ ih => exact .step hx hstep (ih hyz)

end Stepwise

end ReactiveScript

import ReactiveScript.Proofs.Evaluation.Function

/-!
# Who assigns module variables

Module variables are assigned by top-level statements only.  A call assigns its own variables, also
where it runs through blocks, defines functions or calls others, so that an expression leaves the
module variables alone whatever functions it calls.

* `Eval.Leaves` — a computation leaves the module variables alone.
* `Flow.InCall` — the next statement still belongs to a call.
* `Expr.leaves_evalWith`, `Stmt.leaves_execWith` — expressions, and statements of a call, leave the
  module variables alone.
* `FunctionDef.leaves_invoke` — calls do.
-/

set_option autoImplicit false

namespace ReactiveScript

variable {σ : Type}

namespace Eval

variable {α β : Type}

/-- A computation leaves the module variables alone, and a value that it ends with is as `P` says. -/
def Leaves (P : α → Prop) (x : Eval σ α) : Prop :=
  ∀ m s, (x m s).2.1.globals = m.globals ∧ ∀ a, (x m s).1 = .value a → P a

namespace Leaves

variable {P : α → Prop} {Q : β → Prop}

theorem value {a : α} (h : P a) : Leaves P (Eval.value a : Eval σ α) :=
  fun _ _ => ⟨rfl, fun _ ha => by cases ha; exact h⟩

theorem fail (kind : EvalError.Kind) (span : Span) : Leaves P (Eval.fail kind span : Eval σ α) :=
  fun _ _ => ⟨rfl, nofun⟩

theorem panic (message : String) : Leaves P (Eval.panic message : Eval σ α) :=
  fun _ _ => ⟨rfl, nofun⟩

theorem ofChecked (span : Span) (c : Checked α) :
    Leaves (fun _ => True) (Eval.ofChecked span c : Eval σ α) := by
  cases c with
  | ok a => exact value trivial
  | error kind => exact fail kind span

theorem machine : Leaves (fun _ => True) (Eval.machine : Eval σ Machine) :=
  fun _ _ => ⟨rfl, fun _ _ => trivial⟩

theorem change {f : Machine → Machine} (hf : ∀ m, (f m).globals = m.globals) :
    Leaves (fun _ => True) (Eval.change f : Eval σ Unit) :=
  fun m _ => ⟨hf m, fun _ _ => trivial⟩

theorem ask (f : σ → α × σ) : Leaves (fun _ => True) (Eval.ask f) :=
  fun _ _ => ⟨rfl, fun _ _ => trivial⟩

theorem tell (f : σ → σ) : Leaves (fun _ => True) (Eval.tell f) :=
  fun _ _ => ⟨rfl, fun _ _ => trivial⟩

theorem bind {x : Eval σ α} {f : α → Eval σ β} (hx : Leaves P x) (hf : ∀ a, P a → Leaves Q (f a)) :
    Leaves Q (x >>= f) := by
  intro m s
  obtain ⟨hglobals, hvalue⟩ := hx m s
  rw [bind_apply]
  rcases hxm : x m s with ⟨a | e | p, m', s'⟩ <;> rw [hxm] at hglobals hvalue
  · obtain ⟨hglobals', hvalue'⟩ := hf a (hvalue a rfl) m' s'
    exact ⟨hglobals'.trans hglobals, hvalue'⟩
  · exact ⟨hglobals, nofun⟩
  · exact ⟨hglobals, nofun⟩

end Leaves

end Eval

open Eval

/-- The next statement still belongs to a call. -/
def Flow.InCall : Flow → Prop
  | .next scope => scope.isModule = false
  | .result _ => True

/-! ## Names and calls -/

namespace Setting

variable (c : Setting σ)

theorem leaves_checkDeadline (span : Span) : Leaves (fun _ => True) (c.checkDeadline span) := by
  refine .bind (.ask _) fun limit _ => ?_
  cases limit with
  | none => exact .value trivial
  | some limit => exact .fail _ span

theorem leaves_lookup (scope : Scope) (name : String) (span : Span) :
    Leaves (fun _ => True) (c.lookup scope name span) := by
  rw [lookup]
  split
  · exact .value trivial
  · refine .bind .machine fun m _ => ?_
    split
    · exact .value trivial
    · refine .bind (.ask _) fun v _ => ?_
      cases v with
      | some v => exact .value trivial
      | none => exact .fail _ span

theorem leaves_assign {scope : Scope} (h : scope.isModule = false) (name : String) (v : Value) :
    Leaves (fun scope => scope.isModule = false) (c.assign scope name v) := by
  rw [assign, h, if_neg Bool.false_ne_true]
  exact .value rfl

theorem leaves_callComponent (component : Component) (args : Arguments) (span : Span) :
    Leaves (fun _ => True) (c.callComponent component args span) := by
  have hsite : Leaves (fun _ => True) (c.nextSite span) :=
    .bind .machine fun _ _ => .bind (.change fun _ => rfl) fun _ _ => .value trivial
  refine .bind hsite fun site _ => .bind (.ask _) fun state _ => ?_
  exact .bind (.ofChecked span _) fun rendered _ => .bind (.tell _) fun _ _ => .value trivial

theorem leaves_callHelper (h : Helper) (args : Arguments) (span : Span) :
    Leaves (fun _ => True) (c.callHelper h args span) := by
  rw [callHelper]
  split
  · exact .ofChecked span _
  · split
    · exact .ofChecked span _
    · exact .panic _

theorem leaves_callBuiltin (function : String) (args : Arguments) (span : Span) :
    Leaves (fun _ => True) (c.callBuiltin function args span) := by
  rw [callBuiltin]
  split
  · exact leaves_callComponent c _ args span
  · split
    · refine .bind (.ofChecked span _) fun line _ => ?_
      exact .bind (.tell _) fun _ _ => .value trivial
    · split
      · exact leaves_callHelper c _ args span
      · exact .fail _ span

end Setting

/-! ## Expressions -/

theorem leaves_formatted (v : Value) (places : Option Nat) :
    Leaves (fun _ => True) (formatted v places : Eval σ String) := by
  cases places with
  | none => exact .value trivial
  | some p =>
    cases v with
    | number n =>
      rw [formatted]
      split
      · exact .value trivial
      · exact .panic _
    | _ => exact .value trivial

/-- Calls of functions of the script leave the module variables alone. -/
def Invocation.LeavesAll (invoke : Invocation σ) : Prop :=
  ∀ d args span, Leaves (fun _ => True) (invoke d args span)

section Calls

variable {c : Setting σ} {invoke : Invocation σ}

theorem Setting.leaves_call (h : invoke.LeavesAll) (function : String) (args : Arguments)
    (span : Span) : Leaves (fun _ => True) (c.call invoke function args span) := by
  rw [call]
  refine .bind (leaves_checkDeadline c span) fun _ _ => .bind .machine fun m _ => ?_
  split
  · exact h _ args span
  · exact leaves_callBuiltin c function args span

namespace Expr

mutual

/-- **An expression leaves the module variables alone.** -/
theorem leaves_evalWith (h : invoke.LeavesAll) (scope : Scope) : (e : Expr) →
    Leaves (fun _ => True) (e.evalWith c invoke scope)
  | .literal _ v => .value trivial
  | .name span n => Setting.leaves_lookup c scope n span
  | .format _ pieces => by
    rw [evalWith]
    exact .bind (leaves_evalPieces h scope pieces "") fun _ _ => .value trivial
  | .list _ es => by
    rw [evalWith]
    exact .bind (leaves_evalAll h scope es) fun _ _ => .value trivial
  | .dict span es => by
    rw [evalWith]
    exact .bind (leaves_evalEntries h scope span es []) fun _ _ => .value trivial
  | .unary span op e => by
    rw [evalWith]
    exact .bind (leaves_evalWith h scope e) fun _ _ => .ofChecked span _
  | .binary span op l r => by
    rw [evalWith]
    refine .bind (leaves_evalWith h scope l) fun _ _ => ?_
    exact .bind (leaves_evalWith h scope r) fun _ _ => .ofChecked span _
  | .logical _ op l r => by
    rw [evalWith]
    refine .bind (leaves_evalWith h scope l) fun a _ => ?_
    split
    · exact .value trivial
    · exact .value trivial
    · exact leaves_evalWith h scope r
  | .call span f args kws => by
    rw [evalWith]
    refine .bind (leaves_evalAll h scope args) fun positional _ => ?_
    refine .bind (leaves_evalKeywords h scope kws []) fun keywords _ => ?_
    exact Setting.leaves_call h f _ span
  | .index span e i => by
    rw [evalWith]
    refine .bind (leaves_evalWith h scope e) fun _ _ => ?_
    exact .bind (leaves_evalWith h scope i) fun _ _ => .ofChecked span _
  | .attribute span e field => by
    rw [evalWith]
    exact .bind (leaves_evalWith h scope e) fun _ _ => .ofChecked span _

theorem leaves_evalPieces (h : invoke.LeavesAll) (scope : Scope) :
    (ps : List Piece) → (text : String) →
    Leaves (fun _ => True) (evalPieces c invoke scope text ps)
  | [], _ => .value trivial
  | .text s :: ps, text => by
    rw [evalPieces]
    exact leaves_evalPieces h scope ps (text ++ s)
  | .hole e places :: ps, text => by
    rw [evalPieces]
    refine .bind (leaves_evalWith h scope e) fun v _ => ?_
    exact .bind (leaves_formatted v places) fun s _ => leaves_evalPieces h scope ps (text ++ s)

theorem leaves_evalAll (h : invoke.LeavesAll) (scope : Scope) : (es : List Expr) →
    Leaves (fun _ => True) (evalAll c invoke scope es)
  | [] => .value trivial
  | e :: es => by
    rw [evalAll]
    refine .bind (leaves_evalWith h scope e) fun _ _ => ?_
    exact .bind (leaves_evalAll h scope es) fun _ _ => .value trivial

theorem leaves_evalEntries (h : invoke.LeavesAll) (scope : Scope) (span : Span) :
    (es : List (Expr × Expr)) → (entries : Table String Value) →
    Leaves (fun _ => True) (evalEntries c invoke scope span entries es)
  | [], _ => .value trivial
  | (key, e) :: es, entries => by
    rw [evalEntries]
    refine .bind (leaves_evalWith h scope key) fun _ _ => .bind (.ofChecked span _) fun key _ => ?_
    exact .bind (leaves_evalWith h scope e) fun v _ => leaves_evalEntries h scope span es _

theorem leaves_evalKeywords (h : invoke.LeavesAll) (scope : Scope) :
    (es : List (String × Expr)) → (keywords : Table String Value) →
    Leaves (fun _ => True) (evalKeywords c invoke scope keywords es)
  | [], _ => .value trivial
  | (_, e) :: es, keywords => by
    rw [evalKeywords]
    exact .bind (leaves_evalWith h scope e) fun v _ => leaves_evalKeywords h scope es _

end

end Expr

/-! ## Statements of a call -/

theorem leaves_forEach {run : Scope → Value → Eval σ Flow}
    (h : ∀ scope v, scope.isModule = false → Leaves Flow.InCall (run scope v)) (vs : List Value)
    {scope : Scope} (hscope : scope.isModule = false) :
    Leaves Flow.InCall (forEach run vs scope) := by
  induction vs generalizing scope with
  | nil => exact .value (a := Flow.next scope) hscope
  | cons v vs ih =>
    rw [forEach_cons]
    refine .bind (h scope v hscope) fun flow hflow => ?_
    cases flow with
    | next scope => exact ih hflow
    | result r => exact .value trivial

namespace Stmt

mutual

/-- **A statement of a call leaves the module variables alone.** -/
theorem leaves_execWith (h : invoke.LeavesAll) : (stmt : Stmt) → (scope : Scope) →
    scope.isModule = false → Leaves Flow.InCall (stmt.execWith c invoke scope)
  | .assign _ target e, scope, hscope => by
    rw [execWith]
    refine .bind (Expr.leaves_evalWith h scope e) fun v _ => ?_
    exact .bind (Setting.leaves_assign c hscope target v) fun _ hscope' => .value hscope'
  | .expr _ e, scope, hscope => by
    rw [execWith]
    exact .bind (Expr.leaves_evalWith h scope e) fun _ _ => .value hscope
  | .define .., scope, hscope => by
    rw [execWith]
    exact .bind (.change fun _ => rfl) fun _ _ => .value hscope
  | .result _ none, _, _ => .value trivial
  | .result _ (some e), scope, _ => by
    rw [execWith]
    exact .bind (Expr.leaves_evalWith h scope e) fun _ _ => .value trivial
  | .choose _ branches otherwise, scope, hscope => by
    rw [execWith]
    exact leaves_execBranches h branches _ (leaves_execBlock h otherwise) scope hscope
  | .loop span target series body, scope, hscope => by
    rw [execWith]
    refine .bind (Expr.leaves_evalWith h scope series) fun v _ => ?_
    refine .bind (.ofChecked _ _) fun items _ => leaves_forEach (fun scope item hscope => ?_) items
      hscope
    refine .bind (Setting.leaves_checkDeadline c span) fun _ _ => ?_
    exact .bind (Setting.leaves_assign c hscope target item) (leaves_execBlock h body)
  | .pass _, _, hscope => .value hscope

theorem leaves_execBlock (h : invoke.LeavesAll) : (ss : List Stmt) → (scope : Scope) →
    scope.isModule = false → Leaves Flow.InCall (execBlock c invoke ss scope)
  | [], _, hscope => .value hscope
  | s :: rest, scope, hscope => by
    rw [execBlock]
    refine .bind (leaves_execWith h s scope hscope) fun flow hflow => ?_
    cases flow with
    | next scope => exact leaves_execBlock h rest scope hflow
    | result v => exact .value trivial

theorem leaves_execBranches (h : invoke.LeavesAll) : (bs : List (Expr × List Stmt)) →
    (other : Scope → Eval σ Flow) →
    (∀ scope, scope.isModule = false → Leaves Flow.InCall (other scope)) → (scope : Scope) →
    scope.isModule = false → Leaves Flow.InCall (execBranches c invoke bs other scope)
  | [], _, hother, scope, hscope => hother scope hscope
  | (test, body) :: rest, other, hother, scope, hscope => by
    rw [execBranches]
    refine .bind (Expr.leaves_evalWith h scope test) fun v _ => ?_
    split
    · exact leaves_execBlock h body scope hscope
    · exact leaves_execBranches h rest other hother scope hscope

end

end Stmt

end Calls

/-! ## Calls -/

theorem leaves_inCall (function : String) (span : Span) {body : Eval σ Flow}
    (h : Leaves Flow.InCall body) : Leaves (fun _ => True) (inCall function span body) := by
  intro m s
  obtain ⟨hglobals, -⟩ := h { m with depth := m.depth + 1 } s
  rw [inCall_eq]
  obtain ⟨depth, hsurface⟩ := Machine.surface_eq (body { m with depth := m.depth + 1 } s).2.1
    (body { m with depth := m.depth + 1 } s).1
  refine ⟨?_, fun _ _ => trivial⟩
  simp only [hsurface]
  exact hglobals

/-- **A call leaves the module variables alone, however deep calls may nest.** -/
theorem FunctionDef.leaves_invoke (c : Setting σ) (n : Nat) :
    Invocation.LeavesAll (FunctionDef.invoke c n) := by
  induction n with
  | zero =>
    intro d args span
    rw [invoke]
    exact .fail _ span
  | succ n ih =>
    intro d args span
    rw [invoke]
    exact .bind (.ofChecked span _) fun locals _ =>
      leaves_inCall _ span (Stmt.leaves_execBlock ih d.body _ rfl)

end ReactiveScript

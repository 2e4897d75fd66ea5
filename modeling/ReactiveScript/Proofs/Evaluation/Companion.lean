import ReactiveScript.Proofs.Evaluation.Function

/-!
# The same run in other surroundings

The same piece of script is run on the same machine, but in surroundings that keep more than the
others: which call each unit came from, say.  A `Companion` says how the surroundings correspond; how
they do may depend on the anchor of the machine and on its counters, but on nothing else in it.  Then
both runs end alike on the same machine, whatever the script is.

* `Eval.Together` — both computations end alike, and the surroundings still correspond.
* `Expr.together_evalWith`, `Stmt.together_execWith`, `FunctionDef.together_invoke` — everything that
  is evaluated or executed in both surroundings goes together.
-/

set_option autoImplicit false

namespace ReactiveScript

variable {σ τ : Type}

/-- A unit is one that a component call at a site may emit: it has the id that belongs there. -/
structure OutputUnit.BelongsAt (u : OutputUnit) (s : Site) : Prop where
  /-- It is of the kind of a component. -/
  kind_eq : ∃ c : Component, u.kind = c.name
  /-- Its id. -/
  id_eq : u.id = UnitId.ofSite u.kind s

/-- A unit is one that a component call at a site renders. -/
def OutputUnit.RenderedAt (u : OutputUnit) (s : Site) : Prop :=
  ∃ (c : Component) (args : Arguments) (state : Option Value) (v : Value),
    c.render (UnitId.ofSite c.name s) args state = .ok (u, v)

theorem OutputUnit.RenderedAt.belongsAt {u : OutputUnit} {s : Site} (h : u.RenderedAt s) :
    u.BelongsAt s := by
  obtain ⟨c, args, state, v, h⟩ := h
  have hkind := Component.kind_of_render h
  have hid := Component.id_of_render h
  exact ⟨⟨c, hkind⟩, by rw [hid, hkind]⟩

/-- Two settings for runs on the same machine. -/
structure Companion (σ τ : Type) where
  /-- The setting of one run. -/
  left : Setting σ
  /-- The setting of the other run. -/
  right : Setting τ
  /-- How the surroundings correspond. -/
  near : Machine → σ → τ → Prop
  /-- Both runs are of the same script. -/
  file_eq : right.file = left.file
  /-- Calls nest equally deep in both. -/
  limit_eq : right.limit = left.limit
  /-- The library sorts alike in both. -/
  disorder_eq : right.host.disorder = left.host.disorder
  /-- Of the machine, only the anchor and the counters matter. -/
  still : ∀ {m m' s t}, near m s t → m'.anchor = m.anchor → m'.occurrences = m.occurrences →
    near m' s t
  /-- The surroundings agree about the values of names. -/
  global : ∀ {m s t} (n : String), near m s t →
    (right.host.global n t).1 = (left.host.global n s).1 ∧
      near m (left.host.global n s).2 (right.host.global n t).2
  /-- The surroundings agree about the deadline. -/
  expired : ∀ {m s t}, near m s t → (right.host.expired t).1 = (left.host.expired s).1 ∧
    near m (left.host.expired s).2 (right.host.expired t).2
  /-- The surroundings agree about inputs. -/
  input : ∀ {m s t} (id : UnitId), near m s t → right.host.input id t = left.host.input id s
  /-- Lines keep the surroundings near. -/
  print : ∀ {m s t} (line : String), near m s t →
    near m (left.host.print line s) (right.host.print line t)
  /-- A component call that fails is counted. -/
  count : ∀ {m s t} (call : Span), near m s t → near (m.count call) s t
  /-- A component call that emits a unit is counted. -/
  emit : ∀ {m s t} (call : Span) {u : OutputUnit}, u.RenderedAt (left.site m call) → near m s t →
    near (m.count call) (left.host.emit (left.site m call) u s)
      (right.host.emit (left.site m call) u t)

theorem Setting.file_refl (c : Setting σ) : c.file = c.file := rfl

theorem Setting.limit_refl (c : Setting σ) : c.limit = c.limit := rfl

theorem Setting.disorder_refl (c : Setting σ) : c.host.disorder = c.host.disorder := rfl

variable {k : Companion σ τ}

namespace Eval

variable {α β : Type}

/-- Both computations end alike on the same machine, and the surroundings still correspond. -/
def Together (k : Companion σ τ) (x : Eval σ α) (y : Eval τ α) : Prop :=
  ∀ m s t, k.near m s t →
    ∃ t', y m t = ((x m s).1, (x m s).2.1, t') ∧ k.near (x m s).2.1 (x m s).2.2 t'

namespace Together

theorem still (e : Ending EvalError α) :
    Together k (fun m s => (e, m, s)) (fun m t => (e, m, t)) :=
  fun _ _ t h => ⟨t, rfl, h⟩

theorem value (a : α) : Together k (Eval.value a) (Eval.value a) := still (.value a)

theorem fail (kind : EvalError.Kind) (span : Span) :
    Together k (Eval.fail kind span : Eval σ α) (Eval.fail kind span) := still _

theorem panic (message : String) :
    Together k (Eval.panic message : Eval σ α) (Eval.panic message) := still _

theorem ofChecked (span : Span) (c : Checked α) :
    Together k (Eval.ofChecked span c) (Eval.ofChecked span c) := by
  cases c with
  | ok a => exact value a
  | error kind => exact fail kind span

theorem bind {x : Eval σ α} {y : Eval τ α} {f : α → Eval σ β} {g : α → Eval τ β}
    (h : Together k x y) (hf : ∀ a, Together k (f a) (g a)) : Together k (x >>= f) (y >>= g) := by
  intro m s t hst
  obtain ⟨t', ht', hnear⟩ := h m s t hst
  rw [bind_apply x f, bind_apply y g, ht']
  rcases hx : x m s with ⟨a | e | p, m', s'⟩ <;> rw [hx] at hnear
  · exact hf a m' s' t' hnear
  · exact ⟨t', rfl, hnear⟩
  · exact ⟨t', rfl, hnear⟩

/-- A computation that begins with a look at the machine. -/
theorem machine {f : Machine → Eval σ α} {g : Machine → Eval τ α}
    (h : ∀ m, Together k (f m) (g m)) : Together k (Eval.machine >>= f) (Eval.machine >>= g) :=
  fun m s t hst => h m m s t hst

theorem change {f : Machine → Machine}
    (hf : ∀ m, (f m).anchor = m.anchor ∧ (f m).occurrences = m.occurrences) :
    Together k (Eval.change f) (Eval.change f) :=
  fun m _ t hst => ⟨t, rfl, k.still hst (hf m).1 (hf m).2⟩

theorem ask {f : σ → α × σ} {g : τ → α × τ}
    (h : ∀ m s t, k.near m s t → (g t).1 = (f s).1 ∧ k.near m (f s).2 (g t).2) :
    Together k (Eval.ask f) (Eval.ask g) := by
  intro m s t hst
  obtain ⟨hvalue, hnear⟩ := h m s t hst
  refine ⟨(g t).2, ?_, hnear⟩
  show (Ending.value (g t).1, m, (g t).2) = _
  rw [hvalue]
  rfl

theorem tell {f : σ → σ} {g : τ → τ} (h : ∀ m s t, k.near m s t → k.near m (f s) (g t)) :
    Together k (Eval.tell f) (Eval.tell g) :=
  fun m s t hst => ⟨g t, rfl, h m s t hst⟩

end Together

end Eval

open Eval

/-! ## Names and calls -/

/-- Calling a function of the script goes together. -/
def Companion.Calls (k : Companion σ τ) (invoke : Invocation σ) (invoke' : Invocation τ) : Prop :=
  ∀ d args span, Together k (invoke d args span) (invoke' d args span)

namespace Setting

theorem together_checkDeadline (k : Companion σ τ) (span : Span) :
    Together k (k.left.checkDeadline span) (k.right.checkDeadline span) := by
  refine .bind (.ask fun m s t hst => k.expired hst) fun limit => ?_
  cases limit with
  | none => exact .value ()
  | some limit => exact .fail _ span

theorem together_lookup (k : Companion σ τ) (scope : Scope) (name : String) (span : Span) :
    Together k (k.left.lookup scope name span) (k.right.lookup scope name span) := by
  rw [lookup, lookup]
  split
  · exact .value _
  · refine .machine fun m => ?_
    split
    · exact .value _
    · refine .bind (.ask fun m s t hst => k.global name hst) fun v => ?_
      cases v with
      | some v => exact .value v
      | none => exact .fail _ span

theorem together_assign (k : Companion σ τ) (scope : Scope) (name : String) (v : Value) :
    Together k (k.left.assign scope name v) (k.right.assign scope name v) := by
  rw [assign, assign]
  split
  · exact .bind (.change fun _ => ⟨rfl, rfl⟩) fun _ => .value scope
  · exact .value _

theorem together_callComponent (k : Companion σ τ) (component : Component) (args : Arguments)
    (span : Span) :
    Together k (k.left.callComponent component args span)
      (k.right.callComponent component args span) := by
  intro m s t hst
  have hsite : k.right.site m span = k.left.site m span := by rw [site, site, k.file_eq]
  have hrendered : k.right.rendered component args span m t
      = k.left.rendered component args span m s := by
    rw [rendered, rendered, hsite, k.input _ hst]
  cases h : k.left.rendered component args span m s with
  | ok rendered =>
    rw [callComponent_of_ok h, callComponent_of_ok (hrendered.trans h), hsite]
    exact ⟨_, rfl, k.emit span ⟨component, args, _, _, h⟩ hst⟩
  | error kind =>
    rw [callComponent_of_error h, callComponent_of_error (hrendered.trans h)]
    exact ⟨t, rfl, k.count span hst⟩

theorem together_callHelper (k : Companion σ τ) (h : Helper) (args : Arguments) (span : Span) :
    Together k (k.left.callHelper h args span) (k.right.callHelper h args span) := by
  rw [callHelper, callHelper, k.disorder_eq]
  split
  · exact .ofChecked span _
  · split
    · exact .ofChecked span _
    · exact .panic _

theorem together_callBuiltin (k : Companion σ τ) (function : String) (args : Arguments)
    (span : Span) :
    Together k (k.left.callBuiltin function args span)
      (k.right.callBuiltin function args span) := by
  rw [callBuiltin, callBuiltin]
  split
  · exact together_callComponent k _ args span
  · split
    · refine .bind (.ofChecked span _) fun line => ?_
      exact .bind (.tell fun m s t hst => k.print line hst) fun _ => .value _
    · split
      · exact together_callHelper k _ args span
      · exact .fail _ span

theorem together_call {invoke : Invocation σ} {invoke' : Invocation τ} (h : k.Calls invoke invoke')
    (function : String) (args : Arguments) (span : Span) :
    Together k (k.left.call invoke function args span)
      (k.right.call invoke' function args span) := by
  rw [call, call]
  refine .bind (together_checkDeadline k span) fun _ => .machine fun m => ?_
  split
  · exact h _ args span
  · exact together_callBuiltin k function args span

end Setting

/-! ## Expressions -/

theorem together_formatted (k : Companion σ τ) (v : Value) (places : Option Nat) :
    Together k (formatted v places) (formatted v places) := by
  cases places with
  | none => exact .value _
  | some p =>
    cases v with
    | number n =>
      rw [formatted, formatted]
      split
      · exact .value _
      · exact .panic _
    | _ => exact .value _

section Calls

variable {invoke : Invocation σ} {invoke' : Invocation τ}

namespace Expr

mutual

/-- **The value of an expression is the same in both surroundings.** -/
theorem together_evalWith (h : k.Calls invoke invoke') (scope : Scope) : (e : Expr) →
    Together k (e.evalWith k.left invoke scope) (e.evalWith k.right invoke' scope)
  | .literal _ v => .value v
  | .name span n => Setting.together_lookup k scope n span
  | .format _ pieces => by
    rw [evalWith, evalWith]
    exact .bind (together_evalPieces h scope pieces "") fun _ => .value _
  | .list _ es => by
    rw [evalWith, evalWith]
    exact .bind (together_evalAll h scope es) fun _ => .value _
  | .dict span es => by
    rw [evalWith, evalWith]
    exact .bind (together_evalEntries h scope span es []) fun _ => .value _
  | .unary span op e => by
    rw [evalWith, evalWith]
    exact .bind (together_evalWith h scope e) fun _ => .ofChecked span _
  | .binary span op l r => by
    rw [evalWith, evalWith]
    refine .bind (together_evalWith h scope l) fun _ => ?_
    exact .bind (together_evalWith h scope r) fun _ => .ofChecked span _
  | .logical _ op l r => by
    rw [evalWith, evalWith]
    refine .bind (together_evalWith h scope l) fun a => ?_
    split
    · exact .value a
    · exact .value a
    · exact together_evalWith h scope r
  | .call span f args kws => by
    rw [evalWith, evalWith]
    refine .bind (together_evalAll h scope args) fun positional => ?_
    refine .bind (together_evalKeywords h scope kws []) fun keywords => ?_
    exact Setting.together_call h f _ span
  | .index span e i => by
    rw [evalWith, evalWith]
    refine .bind (together_evalWith h scope e) fun _ => ?_
    exact .bind (together_evalWith h scope i) fun _ => .ofChecked span _
  | .attribute span e field => by
    rw [evalWith, evalWith]
    exact .bind (together_evalWith h scope e) fun _ => .ofChecked span _

theorem together_evalPieces (h : k.Calls invoke invoke') (scope : Scope) :
    (ps : List Piece) → (text : String) →
    Together k (evalPieces k.left invoke scope text ps) (evalPieces k.right invoke' scope text ps)
  | [], _ => .value _
  | .text s :: ps, text => by
    rw [evalPieces, evalPieces]
    exact together_evalPieces h scope ps (text ++ s)
  | .hole e places :: ps, text => by
    rw [evalPieces, evalPieces]
    refine .bind (together_evalWith h scope e) fun v => ?_
    exact .bind (together_formatted k v places) fun s => together_evalPieces h scope ps (text ++ s)

theorem together_evalAll (h : k.Calls invoke invoke') (scope : Scope) : (es : List Expr) →
    Together k (evalAll k.left invoke scope es) (evalAll k.right invoke' scope es)
  | [] => .value _
  | e :: es => by
    rw [evalAll, evalAll]
    refine .bind (together_evalWith h scope e) fun _ => ?_
    exact .bind (together_evalAll h scope es) fun _ => .value _

theorem together_evalEntries (h : k.Calls invoke invoke') (scope : Scope) (span : Span) :
    (es : List (Expr × Expr)) → (entries : Table String Value) →
    Together k (evalEntries k.left invoke scope span entries es)
      (evalEntries k.right invoke' scope span entries es)
  | [], _ => .value _
  | (key, e) :: es, entries => by
    rw [evalEntries, evalEntries]
    refine .bind (together_evalWith h scope key) fun _ => .bind (.ofChecked span _) fun key => ?_
    exact .bind (together_evalWith h scope e) fun v => together_evalEntries h scope span es _

theorem together_evalKeywords (h : k.Calls invoke invoke') (scope : Scope) :
    (es : List (String × Expr)) → (keywords : Table String Value) →
    Together k (evalKeywords k.left invoke scope keywords es)
      (evalKeywords k.right invoke' scope keywords es)
  | [], _ => .value _
  | (_, e) :: es, keywords => by
    rw [evalKeywords, evalKeywords]
    exact .bind (together_evalWith h scope e) fun v => together_evalKeywords h scope es _

end

end Expr

/-! ## Statements -/

theorem together_forEach {run : Scope → Value → Eval σ Flow} {run' : Scope → Value → Eval τ Flow}
    (h : ∀ scope v, Together k (run scope v) (run' scope v)) (vs : List Value) (scope : Scope) :
    Together k (forEach run vs scope) (forEach run' vs scope) := by
  induction vs generalizing scope with
  | nil => exact .still _
  | cons v vs ih =>
    rw [forEach_cons, forEach_cons]
    refine .bind (h scope v) fun flow => ?_
    cases flow with
    | next scope => exact ih scope
    | result r => exact .value _

namespace Stmt

mutual

/-- **A statement does the same in both surroundings.** -/
theorem together_execWith (h : k.Calls invoke invoke') : (s : Stmt) → (scope : Scope) →
    Together k (s.execWith k.left invoke scope) (s.execWith k.right invoke' scope)
  | .assign _ target e, scope => by
    rw [execWith, execWith]
    refine .bind (Expr.together_evalWith h scope e) fun v => ?_
    exact .bind (Setting.together_assign k scope target v) fun _ => .value _
  | .expr _ e, scope => by
    rw [execWith, execWith]
    exact .bind (Expr.together_evalWith h scope e) fun _ => .value _
  | .define .., scope => by
    rw [execWith, execWith]
    exact .bind (.change fun _ => ⟨rfl, rfl⟩) fun _ => .value _
  | .result _ none, _ => .value _
  | .result _ (some e), scope => by
    rw [execWith, execWith]
    exact .bind (Expr.together_evalWith h scope e) fun _ => .value _
  | .choose _ branches otherwise, scope => by
    rw [execWith, execWith]
    exact together_execBranches h branches _ _ (together_execBlock h otherwise) scope
  | .loop span target series body, scope => by
    rw [execWith, execWith]
    refine .bind (Expr.together_evalWith h scope series) fun v => ?_
    refine .bind (.ofChecked _ _) fun items => together_forEach (fun scope item => ?_) items scope
    refine .bind (Setting.together_checkDeadline k span) fun _ => ?_
    exact .bind (Setting.together_assign k scope target item) (together_execBlock h body)
  | .pass _, _ => .value _

theorem together_execBlock (h : k.Calls invoke invoke') : (ss : List Stmt) → (scope : Scope) →
    Together k (execBlock k.left invoke ss scope) (execBlock k.right invoke' ss scope)
  | [], _ => .value _
  | s :: rest, scope => by
    rw [execBlock, execBlock]
    refine .bind (together_execWith h s scope) fun flow => ?_
    cases flow with
    | next scope => exact together_execBlock h rest scope
    | result v => exact .value _

theorem together_execBranches (h : k.Calls invoke invoke') : (bs : List (Expr × List Stmt)) →
    (other : Scope → Eval σ Flow) → (other' : Scope → Eval τ Flow) →
    (∀ scope, Together k (other scope) (other' scope)) → (scope : Scope) →
    Together k (execBranches k.left invoke bs other scope)
      (execBranches k.right invoke' bs other' scope)
  | [], _, _, hother, scope => hother scope
  | (test, body) :: rest, other, other', hother, scope => by
    rw [execBranches, execBranches]
    refine .bind (Expr.together_evalWith h scope test) fun v => ?_
    split
    · exact together_execBlock h body scope
    · exact together_execBranches h rest other other' hother scope

end

end Stmt

end Calls

/-! ## Functions and whole scripts -/

theorem together_inCall (function : String) (span : Span) {body : Eval σ Flow} {body' : Eval τ Flow}
    (h : Together k body body') :
    Together k (inCall function span body) (inCall function span body') := by
  intro m s t hst
  obtain ⟨t', ht', hnear⟩ := h { m with depth := m.depth + 1 } s t (k.still hst rfl rfl)
  rw [inCall_eq, inCall_eq, ht']
  obtain ⟨depth, hsurface⟩ := Machine.surface_eq (body { m with depth := m.depth + 1 } s).2.1
    (body { m with depth := m.depth + 1 } s).1
  refine ⟨t', rfl, ?_⟩
  simp only [hsurface]
  exact k.still hnear rfl rfl

/-- **Calls go together, however deep they may nest.** -/
theorem FunctionDef.together_invoke (k : Companion σ τ) (n : Nat) :
    k.Calls (FunctionDef.invoke k.left n) (FunctionDef.invoke k.right n) := by
  induction n with
  | zero =>
    intro d args span
    rw [invoke, invoke, k.limit_eq]
    exact .fail _ span
  | succ n ih =>
    intro d args span
    rw [invoke, invoke]
    exact .bind (.ofChecked span _) fun locals =>
      together_inCall _ span (Stmt.together_execBlock ih d.body _)

theorem Setting.calls_invocation (k : Companion σ τ) (m : Machine) :
    k.Calls (k.left.invocation m) (k.right.invocation m) := by
  rw [invocation, invocation, k.limit_eq]
  exact FunctionDef.together_invoke k _

/-- An expression goes together. -/
theorem Expr.together_eval (k : Companion σ τ) (scope : Scope) (e : Expr) :
    Together k (e.eval k.left scope) (e.eval k.right scope) :=
  fun m s t hst => together_evalWith (Setting.calls_invocation k m) scope e m s t hst

/-- A top-level statement goes together once it is the anchor. -/
theorem Stmt.together_runTop (k : Companion σ τ) (stmt : Stmt) {m : Machine} {s : σ} {t : τ}
    (hst : k.near (m.anchored stmt.span) s t) :
    ∃ t', stmt.runTop k.right m t = ((stmt.runTop k.left m s).1, (stmt.runTop k.left m s).2.1, t') ∧
      k.near (stmt.runTop k.left m s).2.1 (stmt.runTop k.left m s).2.2 t' := by
  have htop : Together k
      (stmt.execWith k.left (k.left.invocation m) .module >>= fun _ => Eval.value ())
      (stmt.execWith k.right (k.right.invocation m) .module >>= fun _ => Eval.value ()) :=
    .bind (together_execWith (Setting.calls_invocation k m) stmt .module) fun _ => .value ()
  exact htop (m.anchored stmt.span) s t hst

end ReactiveScript

import ReactiveScript.Proofs.Evaluation.Function

/-!
# What an evaluation keeps

Evaluating an expression changes neither functions nor module variables, and it keeps whatever the
surroundings keep with every single thing that they are asked or told.  Both come from coupling a
run with itself.

* `Setting.Keeps` — an invariant of the surroundings.
* `Expr.evalWith_keeps` — an invariant of the surroundings is one of an evaluation.
-/

set_option autoImplicit false

namespace ReactiveScript

open Eval

variable {σ : Type}

/-- No function of the machine defines functions. -/
def Machine.DefinesNothing (m : Machine) : Prop :=
  ∀ f d, Table.get? f m.functions = some d → Stmt.blockDefinesNothing d.body = true

/-- Something that holds of the surroundings whatever they are asked or told. -/
structure Setting.Keeps (c : Setting σ) (P : σ → Prop) : Prop where
  /-- They are asked for the value of a name. -/
  global : ∀ n s, P s → P (c.host.global n s).2
  /-- They are asked for the time. -/
  expired : ∀ s, P s → P (c.host.expired s).2
  /-- They are told about a unit. -/
  emit : ∀ site u s, P s → P (c.host.emit site u s)
  /-- They are told about a line. -/
  print : ∀ line s, P s → P (c.host.print line s)

/-- A run beside itself. -/
def Coupling.self {c : Setting σ} {P : σ → Prop} (h : c.Keeps P) (m : Machine) : Coupling σ σ where
  left := c
  right := c
  leftFunctions := m.functions
  rightFunctions := m.functions
  leftGlobals := m.globals
  rightGlobals := m.globals
  near s t := t = s ∧ P s
  counts _ _ := True
  counts_true _ := trivial
  counts_expired _ := trivial
  counts_emit _ _ _ := trivial
  counts_print _ _ := trivial
  file_eq := rfl
  limit_eq := rfl
  disorder_eq := rfl
  expired := by
    rintro _ s ⟨rfl, hs⟩
    exact ⟨rfl, rfl, h.expired s hs⟩
  input := by
    rintro _ s site u ⟨rfl, -⟩ -
    rfl
  emit := by
    rintro _ s site u ⟨rfl, hs⟩
    exact ⟨rfl, h.emit site u s hs⟩
  print := by
    rintro _ s line ⟨rfl, hs⟩
    exact ⟨rfl, h.print line s hs⟩

theorem Coupling.outer_self {c : Setting σ} {P : σ → Prop} (h : c.Keeps P) (m : Machine)
    (n : String) : (Coupling.self h m).Outer n := by
  intro span
  refine .machine fun m' hm' => ?_
  have hglobals : m'.globals = m.globals := hm'.2
  have hmirror : ((Coupling.self h m).mirror m').globals = m.globals := rfl
  rw [hglobals, hmirror]
  cases Table.get? n m.globals with
  | some v => exact .value trivial
  | none =>
    refine .bind (.ask (fun _ => trivial) ?_) fun value _ => ?_
    · rintro _ s ⟨rfl, hs⟩
      exact ⟨rfl, rfl, h.global n s hs⟩
    · cases value with
      | some v => exact .value trivial
      | none => exact .fail _ span

theorem Coupling.callable_self {c : Setting σ} {P : σ → Prop} (h : c.Keeps P) {m : Machine}
    (hm : m.DefinesNothing) : (Coupling.self h m).Callable fun _ => True where
  same _ _ := Or.inl rfl
  definesNothing f d _ hd := hm f d hd
  closed _ _ _ _ _ _ := trivial
  outer _ _ _ _ n _ := Coupling.outer_self h m n

/-- **An evaluation changes neither functions nor module variables, and keeps what the surroundings
keep.**  With a value it comes back from all calls. -/
theorem Expr.evalWith_keeps {c : Setting σ} {P : σ → Prop} (h : c.Keeps P) {m : Machine}
    (hm : m.DefinesNothing) (e : Expr) (scope : Scope) (n : Nat) {s : σ} (hs : P s) :
    let r := e.evalWith c (FunctionDef.invoke c n) scope m s
    r.2.1.functions = m.functions ∧ r.2.1.globals = m.globals ∧
      (∀ v, r.1 = .value v → r.2.1.depth = m.depth) ∧ P r.2.2 := by
  have hcouples : Couples (Coupling.self h m) (fun _ => True)
      ((e.mapWith id id).evalWith c (FunctionDef.invoke c n) scope)
      ((e.mapWith id id).evalWith c (FunctionDef.invoke c n) scope) := by
    refine couples_evalWith e ?_
    rintro (name | f) -
    · exact Setting.couples_lookup (Or.inr (Coupling.outer_self h m name))
    · exact (Coupling.callable_self h hm).couples_call n trivial
  rw [mapWith_id] at hcouples
  have hown := hcouples.own m s ⟨rfl, rfl⟩
  obtain ⟨t, -, rfl, hP⟩ := hcouples.follows m s s ⟨rfl, rfl⟩ ⟨rfl, hs⟩ trivial
  exact ⟨hown.1, hown.2, fun v hv => hcouples.depth_eq m s v ⟨rfl, rfl⟩ hv, hP⟩

end ReactiveScript

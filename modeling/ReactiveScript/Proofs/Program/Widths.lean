import ReactiveScript.Proofs.Component.Rendering
import ReactiveScript.Proofs.Program.Emissions

/-!
# The widths of units

Components check the width of a unit before they emit it, and scripts have no other way to emit a
unit.  So whatever a script does, all units that its surroundings get ask for a share of a row.

* `Expr.fits_eval`, `Stmt.fits_runAll` — the units of an expression, and of statements.
* `Script.fits_of_interpret`, `Declaration.fits_body` — the units of a script, and of a node.
* `Component.calls_all_or_nothing` — a component call emits one unit that is in order, or none.
-/

set_option autoImplicit false

namespace ReactiveScript

variable {σ : Type}

theorem OutputUnit.RenderedAt.fits {u : OutputUnit} {s : Site} (h : u.RenderedAt s) : u.Fits := by
  obtain ⟨c, args, state, v, h⟩ := h
  rcases c.render_spec (UnitId.ofSite c.name s) args state with ⟨kind, herror⟩ | ⟨u', v', hok, hu⟩
  · cases herror.symm.trans h
  · cases hok.symm.trans h
    exact hu.fits

/-- The units that are there and more that fit. -/
def AddsFitting (before after : List OutputUnit) : Prop :=
  ∃ us, after = before ++ us ∧ ∀ u ∈ us, u.Fits

theorem AddsFitting.refl (us : List OutputUnit) : AddsFitting us us :=
  ⟨[], (List.append_nil us).symm, List.forall_mem_nil _⟩

theorem AddsFitting.trans {us vs ws : List OutputUnit} (h : AddsFitting us vs)
    (h' : AddsFitting vs ws) : AddsFitting us ws := by
  obtain ⟨more, rfl, hmore⟩ := h
  obtain ⟨more', rfl, hmore'⟩ := h'
  exact ⟨more ++ more', List.append_assoc _ _ _, List.forall_mem_append.2 ⟨hmore, hmore'⟩⟩

section Runs

variable {c : Setting σ} {units : σ → List OutputUnit}

/-- A run beside itself, in surroundings that have got no units but those that they had and others
that fit. -/
def Companion.fitting (h : c.Collects units) (earlier : List OutputUnit) : Companion σ σ where
  left := c
  right := c
  near _ s t := t = s ∧ AddsFitting earlier (units s)
  file_eq := c.file_refl
  limit_eq := c.limit_refl
  disorder_eq := c.disorder_refl
  still hst _ _ := hst
  global := by
    rintro m s _ n ⟨rfl, hs⟩
    exact ⟨rfl, rfl, by rwa [h.global]⟩
  expired := by
    rintro m s _ ⟨rfl, hs⟩
    exact ⟨rfl, rfl, by rwa [h.expired]⟩
  input := by
    rintro m s _ id ⟨rfl, -⟩
    rfl
  print := by
    rintro m s _ line ⟨rfl, hs⟩
    exact ⟨rfl, by rwa [h.print]⟩
  count _ hst := hst
  emit := by
    rintro m s _ call u hu ⟨rfl, hs⟩
    refine ⟨rfl, ?_⟩
    rw [h.emit]
    exact hs.trans ⟨[u], rfl, List.forall_mem_singleton.2 hu.fits⟩

/-- The units of an expression fit. -/
theorem Expr.fits_eval (h : c.Collects units) (scope : Scope) (e : Expr) (m : Machine) (s : σ) :
    AddsFitting (units s) (units (e.eval c scope m s).2.2) := by
  obtain ⟨t, -, -, hfits⟩ := together_eval (Companion.fitting h (units s)) scope e m s s
    ⟨rfl, .refl _⟩
  exact hfits

/-- The units of a top-level statement fit. -/
theorem Stmt.fits_runTop (h : c.Collects units) (stmt : Stmt) (m : Machine) (s : σ) :
    AddsFitting (units s) (units (stmt.runTop c m s).2.2) := by
  obtain ⟨t, -, -, hfits⟩ := together_runTop (Companion.fitting h (units s)) stmt (m := m)
    (s := s) (t := s) ⟨rfl, .refl _⟩
  exact hfits

/-- The units of statements fit. -/
theorem Stmt.fits_runAll (h : c.Collects units) (body : List Stmt) (m : Machine) (s : σ) :
    AddsFitting (units s) (units (runAll c body m s).2.2) := by
  induction body generalizing m s with
  | nil => exact .refl _
  | cons stmt body ih =>
    have hfits := fits_runTop h stmt m s
    rw [runAll, Eval.bind_apply]
    rcases hr : stmt.runTop c m s with ⟨_ | _ | _, m', s'⟩ <;> rw [hr] at hfits
    · exact hfits.trans (ih m' s')
    · exact hfits
    · exact hfits

end Runs

/-- The units of an interpretation fit. -/
theorem Script.fits_of_interpret {script : Script} {file : String} {inputs : InputTable}
    {limit : Nat} {us : List OutputUnit} (h : script.interpret file inputs limit = .ok us) :
    ∀ u ∈ us, u.Fits := by
  obtain ⟨m, l, hrun, rfl⟩ := exists_runAll_of_interpret h
  have hfits := Stmt.fits_runAll (collects_setting file inputs limit) script.body (.fresh [])
    (.start none)
  rw [hrun] at hfits
  obtain ⟨us, hunits, hus⟩ := hfits
  rw [hunits]
  exact hus

/-- The units of a node fit. -/
theorem Declaration.fits_body (p : Program) (limit : Nat) (d : Declaration) (v : Visit) :
    ∀ u ∈ (d.body p limit v).footprint.log.emitted.toList, u.Fits := by
  cases htask : d.task with
  | definition fd =>
    rw [body_eq_idle htask]
    exact List.forall_mem_nil _
  | expression e =>
    obtain ⟨us, hunits, hus⟩ := Expr.fits_eval (collects_setting p limit v) (d.scope v) e
      (machine p d) (.start v)
    have hbody : (d.body p limit v).footprint.log.emitted.toList = us := by
      rw [body_eq htask]
      exact hunits
    rw [hbody]
    exact hus

/-- **Component calls are all or nothing.**  Whatever its arguments are and whatever is held for its
unit, a component call fails and leaves its surroundings alone, or it hands them one unit: with the
id that it is given, of its kind and with a width that is a share of a row.  What an input component
shows and returns is what is held for its unit, or else a default that has been checked.  So all
units that a script emits, and all that a node emits, ask for a share of a row. -/
theorem Component.calls_all_or_nothing :
    (∀ (c : Component) (id : UnitId) (args : Arguments) (state : Option Value),
      (∃ kind, c.render id args state = .error kind) ∨
        ∃ u v, c.render id args state = .ok (u, v) ∧ c.Emits id args state u v) ∧
    (∀ (τ : Type) (setting : Setting τ) (c : Component) (args : Arguments) (span : Span)
      (m : Machine) (s : τ),
      let site := setting.site m span
      let id := UnitId.ofSite c.name site
      (∃ e m', setting.callComponent c args span m s = (.error e, m', s)) ∨
        ∃ u v m', setting.callComponent c args span m s
            = (.value v, m', setting.host.emit site u s) ∧
          c.Emits id args (setting.host.input id s) u v) ∧
    (∀ (τ : Type) (setting : Setting τ) (units : τ → List OutputUnit), setting.Collects units →
      ∀ (body : List Stmt) (m : Machine) (s : τ), ∃ us,
        units (Stmt.runAll setting body m s).2.2 = units s ++ us ∧
          ∀ u ∈ us, 0 < u.width ∧ u.width ≤ 1) ∧
    (∀ (script : Script) (file : String) (inputs : InputTable) (limit : Nat)
      (us : List OutputUnit), script.interpret file inputs limit = .ok us →
      ∀ u ∈ us, 0 < u.width ∧ u.width ≤ 1) ∧
    (∀ (p : Program) (limit : Nat) (d : Declaration) (v : Visit),
      ∀ u ∈ (d.body p limit v).footprint.log.emitted.toList, 0 < u.width ∧ u.width ≤ 1) := by
  refine ⟨render_spec, fun τ setting c args span m s => ?_,
    fun τ setting units h => Stmt.fits_runAll h,
    fun script file inputs limit us => Script.fits_of_interpret, Declaration.fits_body⟩
  rcases c.render_spec (UnitId.ofSite c.name (setting.site m span)) args
    (setting.host.input (UnitId.ofSite c.name (setting.site m span)) s) with
    ⟨kind, h⟩ | ⟨u, v, h, hu⟩
  · exact Or.inl ⟨_, _, Setting.callComponent_of_error h⟩
  · exact Or.inr ⟨u, v, _, Setting.callComponent_of_ok h, hu⟩

/-- A slider with all its numbers in order. -/
theorem Component.slider_emits :
    ∃ u v, Component.slider.render ⟨"slider-0"⟩
        ⟨[.text "Level", .number 0, .number 10, .number 4], [("size", .number 0.5)]⟩ none
          = .ok (u, v) ∧
      Component.slider.Emits ⟨"slider-0"⟩
        ⟨[.text "Level", .number 0, .number 10, .number 4], [("size", .number 0.5)]⟩ none u v := by
  obtain ⟨hrender, -⟩ := calls_all_or_nothing
  refine (hrender .slider _ _ _).resolve_left ?_
  rintro ⟨kind, herror⟩
  have hok : (Component.slider.render ⟨"slider-0"⟩
      ⟨[.text "Level", .number 0, .number 10, .number 4], [("size", .number 0.5)]⟩ none).isOk
        = true := by
    decide +kernel
  rw [herror] at hok
  cases hok

end ReactiveScript

import ReactiveScript.Proofs.Component
import ReactiveScript.Proofs.Number.Order

/-!
# What components render

A component checks its arguments before it renders anything, each of them in its own way, but all of
them end with a unit whose width is a share of a row.  The input components show and return the value
that the session holds for their unit.  If it holds none, that is a default, which has been checked as
well.

* `Component.HasDefault` — the default of an input component.
* `Component.renders_of_rendering` — what a component shows and returns is in order.
* `Component.render_spec` — a component call fails, or renders a unit that is in order.
-/

set_option autoImplicit false

namespace ReactiveScript

/-- A unit asks for a share of a row: more than nothing, and no more than all of it. -/
def OutputUnit.Fits (u : OutputUnit) : Prop := 0 < u.width ∧ u.width ≤ 1

theorem Bound.of_width_eq_ok {b : Bound} {w : Float} (h : b.width = .ok w) : 0 < w ∧ w ≤ 1 := by
  obtain ⟨size, -, h⟩ := exists_of_bind h
  split at h
  · cases h
    assumption
  · cases h

namespace Component

variable {c : Component} {b : Bound} {state : Option Value} {r : Rendering}

/-- The default of an input component: what it shows as long as nothing is held for its unit. -/
inductive HasDefault (b : Bound) : Component → Value → Prop where
  /-- Nothing has been pressed. -/
  | button : HasDefault b .button (.bool false)
  /-- Whether it is ticked is what the argument counts as. -/
  | checkbox : HasDefault b .checkbox
      (.bool (((b.optional "default").map Value.isTruthy).getD false))
  /-- A number between two others, if all three compare. -/
  | slider {min max dflt : Float} (hmin : b.number "min" 0 = .ok min)
      (hmax : b.number "max" 100 = .ok max) (hdflt : b.number "default" min = .ok dflt)
      (hbetween : min.isNaN = false → max.isNaN = false → dflt.isNaN = false →
        min ≤ dflt ∧ dflt ≤ max) : HasDefault b .slider (.number dflt)
  /-- The argument, which is one of the options. -/
  | chosen {options : List Value} {dflt option : Value}
      (hoptions : b.required "options" = .ok (.list options))
      (hdflt : b.optional "default" = some dflt) (hmem : option ∈ options)
      (hsame : option.same dflt = true) : HasDefault b .selectbox dflt
  /-- The first option, if there is one. -/
  | first {options : List Value} (hoptions : b.required "options" = .ok (.list options))
      (hdflt : b.optional "default" = none) : HasDefault b .selectbox (options.head?.getD .null)
  /-- The text of the argument. -/
  | textInput : HasDefault b .textInput (.text (textOr b "default" ""))

/-- What a call with bound arguments shows and returns is in order. -/
structure Renders (c : Component) (b : Bound) (state : Option Value) (r : Rendering) : Prop where
  /-- The unit asks for a share of a row. -/
  width : 0 < r.width ∧ r.width ≤ 1
  /-- An input component shows and returns what is held for its unit, or else its default. -/
  input : c.isInput = true → ∃ dflt entries, HasDefault b c dflt ∧ r.result = state.getD dflt ∧
    r.payload = .dict entries ∧ Table.get? "value" entries = some r.result

/-- A component that takes no input. -/
theorem renders_of_not_isInput (hc : c.isInput = false) (hw : 0 < r.width ∧ r.width ≤ 1) :
    Renders c b state r :=
  ⟨hw, fun h => by rw [hc] at h; cases h⟩

/-- A component that takes input. -/
theorem renders_of_hasDefault {dflt : Value} {entries : Table String Value} {w : Float}
    (hw : b.width = .ok w) (hdflt : HasDefault b c dflt)
    (hvalue : Table.get? "value" entries = some (state.getD dflt)) :
    Renders c b state ⟨.dict entries, state.getD dflt, w⟩ :=
  ⟨Bound.of_width_eq_ok hw, fun _ => ⟨dflt, entries, hdflt, rfl, rfl, hvalue⟩⟩

/-- The numbers of a slider are in order if they compare. -/
theorem renders_of_renderSlider (h : renderSlider b state = .ok r) :
    Renders .slider b state r := by
  obtain ⟨label, -, h⟩ := exists_of_bind h
  obtain ⟨min, hmin, h⟩ := exists_of_bind h
  obtain ⟨max, hmax, h⟩ := exists_of_bind h
  obtain ⟨step, -, h⟩ := exists_of_bind h
  obtain ⟨dflt, hdflt, h⟩ := exists_of_bind h
  obtain ⟨w, hw, h⟩ := exists_of_bind h
  split at h
  · cases h
  · split at h
    · cases h
    · rename_i houtside
      obtain ⟨hlow, hhigh⟩ := not_or.1 houtside
      cases h
      refine renders_of_hasDefault hw (.slider hmin hmax hdflt fun hmin hmax hdflt => ?_) rfl
      exact ⟨Number.le_of_not_lt hdflt hmin hlow, Number.le_of_not_lt hmax hdflt hhigh⟩

/-- An explicit default is one of the options. -/
theorem renders_of_renderSelectbox (h : renderSelectbox b state = .ok r) :
    Renders .selectbox b state r := by
  obtain ⟨label, -, h⟩ := exists_of_bind h
  obtain ⟨options, hoptions, h⟩ := exists_of_bind h
  split at h
  · cases h
  · rename_i choices hchoices
    obtain rfl : options = .list choices := by
      cases options with
      | list items => exact congrArg Value.list (Option.some.inj hchoices)
      | null | bool | number | text | dict => cases hchoices
    dsimp only at h
    split at h
    · cases h
    · rename_i hallowed
      obtain ⟨w, hw, h⟩ := exists_of_bind h
      cases h
      refine renders_of_hasDefault hw ?_ rfl
      cases hdflt : b.optional "default" with
      | none => exact .first hoptions hdflt
      | some dflt =>
        rw [hdflt, Option.filter_eq_none_iff] at hallowed
        have hany : choices.any (·.same dflt) = true := by simpa using hallowed
        obtain ⟨option, hmem, hsame⟩ := List.any_eq_true.1 hany
        exact .chosen hoptions hdflt hmem hsame

/-- **What a component shows and returns is in order.** -/
theorem renders_of_rendering (h : c.rendering b state = .ok r) : Renders c b state r := by
  cases c with
  | text | table =>
    obtain ⟨_, -, h⟩ := exists_of_bind h
    obtain ⟨w, hw, h⟩ := exists_of_bind h
    cases h
    exact renders_of_not_isInput rfl (Bound.of_width_eq_ok hw)
  | alert =>
    obtain ⟨_, -, h⟩ := exists_of_bind h
    dsimp only at h
    split at h
    · cases h
    · obtain ⟨w, hw, h⟩ := exists_of_bind h
      cases h
      exact renders_of_not_isInput rfl (Bound.of_width_eq_ok hw)
  | button =>
    obtain ⟨_, -, h⟩ := exists_of_bind h
    obtain ⟨w, hw, h⟩ := exists_of_bind h
    cases h
    exact renders_of_hasDefault hw .button rfl
  | checkbox =>
    obtain ⟨_, -, h⟩ := exists_of_bind h
    obtain ⟨w, hw, h⟩ := exists_of_bind h
    cases h
    exact renders_of_hasDefault hw .checkbox rfl
  | textInput =>
    obtain ⟨_, -, h⟩ := exists_of_bind h
    obtain ⟨w, hw, h⟩ := exists_of_bind h
    cases h
    exact renders_of_hasDefault hw .textInput rfl
  | slider => exact renders_of_renderSlider h
  | selectbox => exact renders_of_renderSelectbox h
  | progress =>
    obtain ⟨_, -, h⟩ := exists_of_bind h
    obtain ⟨_, -, h⟩ := exists_of_bind h
    obtain ⟨_, -, h⟩ := exists_of_bind h
    split at h
    · obtain ⟨w, hw, h⟩ := exists_of_bind h
      cases h
      exact renders_of_not_isInput rfl (Bound.of_width_eq_ok hw)
    · cases h
  | separator =>
    cases h
    exact renders_of_not_isInput rfl (by decide +kernel)

/-- A component call renders a unit under an id that is in order, and returns a value. -/
structure Emits (c : Component) (id : UnitId) (args : Arguments) (state : Option Value)
    (u : OutputUnit) (v : Value) : Prop where
  /-- The unit has the id that it is given. -/
  id_eq : u.id = id
  /-- It is of the kind of the component. -/
  kind_eq : u.kind = c.name
  /-- It asks for a share of a row. -/
  fits : u.Fits
  /-- An input component shows and returns what is held for its unit, or else its default. -/
  input : c.isInput = true → ∃ b dflt entries, args.bind c.name c.params = .ok b ∧
    HasDefault b c dflt ∧ v = state.getD dflt ∧ u.value = .dict entries ∧
    Table.get? "value" entries = some v

/-- **A component call fails, or renders a unit that is in order.** -/
theorem render_spec (c : Component) (id : UnitId) (args : Arguments) (state : Option Value) :
    (∃ kind, c.render id args state = .error kind) ∨
      ∃ u v, c.render id args state = .ok (u, v) ∧ c.Emits id args state u v := by
  cases h : c.render id args state with
  | error kind => exact Or.inl ⟨kind, rfl⟩
  | ok rendered =>
    obtain ⟨b, hb, h⟩ := exists_of_bind h
    obtain ⟨r, hr, h⟩ := exists_of_bind h
    cases h
    obtain ⟨hwidth, hinput⟩ := renders_of_rendering hr
    refine Or.inr ⟨_, _, rfl, rfl, rfl, hwidth, fun hc => ?_⟩
    obtain ⟨dflt, entries, hdflt, hrest⟩ := hinput hc
    exact ⟨b, dflt, entries, hb, hdflt, hrest⟩

end Component

end ReactiveScript

import ReactiveScript.Component
import ReactiveScript.Proofs.Checked

/-!
# Components and their input

The value that a session holds for a unit is shown by its component, but it does not decide whether a
call of the component is in order: that is a matter of the arguments.

* `Component.render_eq_error` — a component that fails does so whatever its input.
* `Component.id_of_render` — a component emits its unit under the id that it is given.
-/

set_option autoImplicit false

namespace ReactiveScript

namespace Component

variable {c : Component} {state : Option Value} {kind : EvalError.Kind}

theorem rendering_eq_error {b : Bound} (h : c.rendering b state = .error kind)
    (state' : Option Value) : c.rendering b state' = .error kind := by
  cases c with
  | text | alert | table | progress | separator => exact h
  | button | checkbox | textInput =>
    refine bind_eq_error (fun _ => bind_eq_error fun _ h => ?_) h
    cases h
  | slider =>
    refine bind_eq_error (fun _ => bind_eq_error fun _ => bind_eq_error fun _ => bind_eq_error
      fun _ => bind_eq_error fun _ => bind_eq_error fun _ h => ?_) h
    split at h
    · rename_i hreversed
      rw [if_pos hreversed]
      exact h
    · rename_i hreversed
      rw [if_neg hreversed]
      split at h
      · rename_i houtside
        rw [if_pos houtside]
        exact h
      · cases h
  | selectbox =>
    refine bind_eq_error (fun _ => bind_eq_error fun options h => ?_) h
    dsimp only at h ⊢
    split at h
    · exact h
    · split at h
      · exact h
      · exact bind_eq_error (fun _ h => by cases h) h

/-- **A component that fails does so whatever its input.** -/
theorem render_eq_error {id : UnitId} {args : Arguments}
    (h : c.render id args state = .error kind) (state' : Option Value) :
    c.render id args state' = .error kind := by
  refine bind_eq_error (fun b h => ?_) h
  cases hr : c.rendering b state with
  | error kind' =>
    rw [hr] at h
    rw [rendering_eq_error hr state']
    exact h
  | ok r =>
    rw [hr] at h
    cases h

/-- A component emits its unit under the id that it is given. -/
theorem id_of_render {id : UnitId} {args : Arguments} {rendered : OutputUnit × Value}
    (h : c.render id args state = .ok rendered) : rendered.1.id = id := by
  rw [render] at h
  obtain ⟨b, -, h⟩ := exists_of_bind h
  obtain ⟨r, -, h⟩ := exists_of_bind h
  cases h
  rfl

/-- A component emits units of its own kind. -/
theorem kind_of_render {id : UnitId} {args : Arguments} {rendered : OutputUnit × Value}
    (h : c.render id args state = .ok rendered) : rendered.1.kind = c.name := by
  rw [render] at h
  obtain ⟨b, -, h⟩ := exists_of_bind h
  obtain ⟨r, -, h⟩ := exists_of_bind h
  cases h
  rfl

end Component

end ReactiveScript

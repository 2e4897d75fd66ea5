/-!
# Checked steps

A sequence of steps that may fail ends well only if each of them does, and fails with the first step
that does not.
-/

set_option autoImplicit false

namespace ReactiveScript

variable {ε α β : Type}

theorem exists_of_bind {x : Except ε α} {f : α → Except ε β} {b : β} (h : x >>= f = .ok b) :
    ∃ a, x = .ok a ∧ f a = .ok b := by
  cases x with
  | error e => cases h
  | ok a => exact ⟨a, rfl, h⟩

theorem bind_eq_ok {x : Except ε α} {f : α → Except ε β} {a : α} {b : β} (h : x = .ok a)
    (h' : f a = .ok b) : x >>= f = .ok b := by
  subst h
  exact h'

theorem bind_of_ok {x : Except ε α} {f : α → Except ε β} {a : α} (h : x = .ok a) :
    x >>= f = f a := by
  rw [h]
  rfl

/-- Steps are the same if each of them is, given what comes before it. -/
theorem bind_congr_ok {x x' : Except ε α} {f g : α → Except ε β} (h : x = x')
    (hfg : ∀ a, x = .ok a → f a = g a) : x >>= f = x' >>= g := by
  subst h
  cases x with
  | error e => rfl
  | ok a => exact hfg a rfl

/-- Steps that fail in the same way do so behind a first step. -/
theorem bind_eq_error {x : Except ε α} {f g : α → Except ε β} {e : ε}
    (hfg : ∀ a, f a = .error e → g a = .error e) (h : x >>= f = .error e) : x >>= g = .error e := by
  cases x with
  | error e => exact h
  | ok a => exact hfg a h

/-- Steps that fail do so in the first of them or behind it. -/
theorem error_of_bind {x : Except ε α} {f : α → Except ε β} {e : ε} (h : x >>= f = .error e) :
    x = .error e ∨ ∃ a, x = .ok a ∧ f a = .error e := by
  cases x with
  | error e =>
    cases h
    exact Or.inl rfl
  | ok a => exact Or.inr ⟨a, rfl, h⟩

theorem exists_of_map {x : Except ε α} {f : α → β} {b : β} (h : x.map f = .ok b) :
    ∃ a, x = .ok a ∧ f a = b := by
  cases x with
  | error e => cases h
  | ok a =>
    cases h
    exact ⟨a, rfl, rfl⟩

end ReactiveScript

import Mathlib

/-!
# The order of numbers

Apart from NaN, the numbers are linearly ordered, with both zeros in one place.  `Number.rank?` says
where a number stands by its sign, its exponent and its mantissa, and every comparison is one of
ranks.

* `Number.compare_unpack` — two numbers compare as their ranks do.
* `Number.lt_iff`, `Number.le_iff`, `Number.beq_iff` — order and equality in terms of ranks.
-/

set_option autoImplicit false

namespace ReactiveScript

open Float.Model

namespace Number

/-- Where a number stands among all others: its sign, and then what makes it larger.  NaN stands
nowhere. -/
def rank? (x : Float) : Option (ℤ ×ₗ ℤ ×ₗ ℤ) :=
  match x.toModel.unpack with
  | .notANumber => none
  | .infinity .negative => some (toLex (-2, toLex (0, 0)))
  | .finite .negative m e _ => some (toLex (-1, toLex (-e, -m)))
  | .zero _ => some (toLex (0, toLex (0, 0)))
  | .finite .positive m e _ => some (toLex (1, toLex (e, m)))
  | .infinity .positive => some (toLex (2, toLex (0, 0)))

/-- Changing the sign turns the order around. -/
theorem compare_neg (a b : ℤ) : compare (-a) (-b) = (compare a b).swap := by
  rw [← cmp_eq_compare, ← cmp_eq_compare, cmp_swap]
  exact StrictAnti.cmp_map_eq (fun _ _ h => neg_lt_neg h) a b

theorem compare_cast (a b : ℕ) : compare (a : ℤ) b = compare a b := by
  rw [← cmp_eq_compare, ← cmp_eq_compare]
  exact Int.natCast_strictMono.cmp_map_eq a b

/-- Two numbers compare as their ranks do. -/
theorem compare_unpack (x y : Float) :
    x.toModel.unpack.compare y.toModel.unpack
      = (rank? x).bind fun r => (rank? y).map (compare r) := by
  -- the order of the ranks is lexicographic
  have hlex : ∀ a b c a' b' c' : ℤ, compare (toLex (a, toLex (b, c))) (toLex (a', toLex (b', c')))
      = (compare a a').then ((compare b b').then (compare c c')) := fun _ _ _ _ _ _ => rfl
  rw [rank?, rank?]
  cases x.toModel.unpack with
  | notANumber => rfl
  | infinity s =>
    cases y.toModel.unpack with
    | notANumber => cases s <;> rfl
    | infinity t => cases s <;> cases t <;> rfl
    | zero t => cases s <;> rfl
    | finite t m e hm => cases s <;> cases t <;> rfl
  | zero s =>
    cases y.toModel.unpack with
    | notANumber => rfl
    | infinity t => cases t <;> rfl
    | zero t => rfl
    | finite t m e hm => cases t <;> rfl
  | finite s m e hm =>
    cases y.toModel.unpack with
    | notANumber => cases s <;> rfl
    | infinity t => cases s <;> cases t <;> rfl
    | zero t => cases s <;> rfl
    | finite t m' e' hm' =>
      cases s with
      | negative =>
        cases t with
        | negative =>
          simp [hlex, compare_neg, compare_cast, UnpackedFloat.compare, Ordering.swap_then]
        | positive => rfl
      | positive =>
        cases t with
        | negative => rfl
        | positive =>
          simp [hlex, compare_cast, UnpackedFloat.compare]

theorem compare_unpack_eq_some {x y : Float} {o : Ordering} :
    x.toModel.unpack.compare y.toModel.unpack = some o ↔
      ∃ r q, rank? x = some r ∧ rank? y = some q ∧ compare r q = o := by
  rw [compare_unpack, Option.bind_eq_some_iff]
  constructor
  · rintro ⟨r, hr, h⟩
    obtain ⟨q, hq, h⟩ := Option.map_eq_some_iff.1 h
    exact ⟨r, q, hr, hq, h⟩
  · rintro ⟨r, q, hr, hq, h⟩
    exact ⟨r, hr, Option.map_eq_some_iff.2 ⟨q, hq, h⟩⟩

theorem lt_iff {x y : Float} :
    x < y ↔ ∃ r q, rank? x = some r ∧ rank? y = some q ∧ r < q := by
  have hlt : x < y ↔ (x.toModel.unpack.compare y.toModel.unpack == some .lt) = true :=
    decide_eq_true_iff
  simp only [hlt, beq_iff_eq, compare_unpack_eq_some, compare_lt_iff_lt]

theorem le_iff {x y : Float} :
    x ≤ y ↔ ∃ r q, rank? x = some r ∧ rank? y = some q ∧ r ≤ q := by
  have hle : x ≤ y ↔
      (x.toModel.unpack.compare y.toModel.unpack).any Ordering.isLE = true :=
    decide_eq_true_iff
  rw [hle, Option.any_eq_true]
  constructor
  · rintro ⟨o, h, ho⟩
    obtain ⟨r, q, hr, hq, rfl⟩ := compare_unpack_eq_some.1 h
    exact ⟨r, q, hr, hq, compare_le_iff_le.1 (Ordering.isLE_iff_ne_gt.1 ho)⟩
  · rintro ⟨r, q, hr, hq, h⟩
    exact ⟨_, compare_unpack_eq_some.2 ⟨r, q, hr, hq, rfl⟩,
      Ordering.isLE_iff_ne_gt.2 (compare_le_iff_le.2 h)⟩

theorem beq_iff {x y : Float} : (x == y) = true ↔ ∃ r, rank? x = some r ∧ rank? y = some r := by
  have hbeq : (x == y) = (x.toModel.unpack.compare y.toModel.unpack == some .eq) := rfl
  rw [hbeq, beq_iff_eq, compare_unpack_eq_some]
  constructor
  · rintro ⟨r, q, hr, hq, h⟩
    rw [compare_eq_iff_eq.1 h] at hr
    exact ⟨q, hr, hq⟩
  · rintro ⟨r, hr, hq⟩
    exact ⟨r, r, hr, hq, compare_eq_iff_eq.2 rfl⟩

/-- NaN is the one number that stands nowhere. -/
theorem exists_rank_iff {x : Float} : (∃ r, rank? x = some r) ↔ x.isNaN = false := by
  have hnan : x.isNaN = x.toModel.unpack.isNaN := rfl
  rw [hnan, rank?]
  cases x.toModel.unpack with
  | notANumber => simp [UnpackedFloat.isNaN]
  | zero s => simp [UnpackedFloat.isNaN]
  | infinity s => cases s <;> simp [UnpackedFloat.isNaN]
  | finite s m e hm => cases s <;> simp [UnpackedFloat.isNaN]

theorem le_of_not_lt {x y : Float} (hx : x.isNaN = false) (hy : y.isNaN = false)
    (h : ¬x < y) : y ≤ x := by
  obtain ⟨r, hr⟩ := exists_rank_iff.2 hx
  obtain ⟨q, hq⟩ := exists_rank_iff.2 hy
  exact le_iff.2 ⟨q, r, hq, hr, le_of_not_gt fun hlt => h (lt_iff.2 ⟨r, q, hr, hq, hlt⟩)⟩

end Number

end ReactiveScript

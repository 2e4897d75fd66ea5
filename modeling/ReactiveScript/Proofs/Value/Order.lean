import ReactiveScript.Proofs.Number.Order
import ReactiveScript.Value

/-!
# The order of values

Not every two values compare, and whether they do is no equivalence: lists compare up to the first
difference only, truth values compare as numbers, and NaN does not compare with itself.  Still the
order can be turned around, and what lies between two values links them.

* `Value.compare?_swap` — the comparison the other way around gives the opposite.
* `Value.compare?_trans` — values on both sides of a third one compare, and in the same way.
* `Value.compareNumbers_eq_some` — scripts compare numbers by their ranks.
* `Value.same_of_compare?_eq` — values that compare as equal are equal.
-/

set_option autoImplicit false

namespace ReactiveScript

namespace Value

/-! ## Numbers -/

/-- Scripts compare two numbers as their ranks do, and do not compare NaN. -/
theorem compareNumbers_eq_some {x y : Float} {o : Ordering} :
    compareNumbers x y = some o ↔
      ∃ r q, Number.rank? x = some r ∧ Number.rank? y = some q ∧ compare r q = o := by
  rw [compareNumbers]
  constructor
  · intro h
    split at h
    · rename_i hlt
      obtain ⟨r, q, hr, hq, hlt⟩ := Number.lt_iff.1 hlt
      cases h
      exact ⟨r, q, hr, hq, compare_lt_iff_lt.2 hlt⟩
    · split at h
      · rename_i hgt
        obtain ⟨q, r, hq, hr, hlt⟩ := Number.lt_iff.1 hgt
        cases h
        exact ⟨r, q, hr, hq, compare_gt_iff_gt.2 hlt⟩
      · split at h
        · rename_i heq
          obtain ⟨r, hr, hq⟩ := Number.beq_iff.1 heq
          cases h
          exact ⟨r, r, hr, hq, compare_eq_iff_eq.2 rfl⟩
        · cases h
  · rintro ⟨r, q, hr, hq, rfl⟩
    have hlt : x < y ↔ r < q := by
      rw [Number.lt_iff, hr, hq]
      simp
    have hgt : y < x ↔ q < r := by
      rw [Number.lt_iff, hr, hq]
      simp
    have heq : (x == y) = true ↔ r = q := by
      rw [Number.beq_iff, hr, hq]
      simp [eq_comm]
    simp only [hlt, hgt, heq]
    rcases lt_trichotomy r q with h | rfl | h
    · rw [if_pos h, compare_lt_iff_lt.2 h]
    · rw [if_neg (lt_irrefl r), if_neg (lt_irrefl r), if_pos rfl, compare_eq_iff_eq.2 rfl]
    · rw [if_neg h.not_gt, if_pos h, compare_gt_iff_gt.2 h]

theorem compareNumbers_swap (x y : Float) :
    compareNumbers y x = (compareNumbers x y).map Ordering.swap := by
  refine Option.ext fun o => ?_
  rw [Option.map_eq_some_iff, compareNumbers_eq_some]
  constructor
  · rintro ⟨q, r, hq, hr, rfl⟩
    exact ⟨_, compareNumbers_eq_some.2 ⟨r, q, hr, hq, rfl⟩, Std.OrientedCmp.eq_swap.symm⟩
  · rintro ⟨o, h, rfl⟩
    obtain ⟨r, q, hr, hq, rfl⟩ := compareNumbers_eq_some.1 h
    exact ⟨q, r, hq, hr, Std.OrientedCmp.eq_swap⟩

/-- Two comparisons that agree in direction give a third one. -/
theorem compare_trans {α : Type} [Ord α] [Std.TransOrd α] {x y z : α}
    (h : (compare x y).isLE) (h' : (compare y z).isLE) :
    compare x z = (compare x y).then (compare y z) := by
  cases hxy : compare x y with
  | lt => exact Std.TransCmp.lt_of_lt_of_isLE hxy h'
  | eq => exact Std.TransCmp.congr_left hxy
  | gt => rw [hxy] at h; cases h

theorem compareNumbers_trans {x y z : Float} {o o' : Ordering} (h : compareNumbers x y = some o)
    (h' : compareNumbers y z = some o') (ho : o.isLE) (ho' : o'.isLE) :
    compareNumbers x z = some (o.then o') := by
  obtain ⟨r, q, hr, hq, rfl⟩ := compareNumbers_eq_some.1 h
  obtain ⟨q', p, hq', hp, rfl⟩ := compareNumbers_eq_some.1 h'
  obtain rfl : q = q' := Option.some.inj (hq.symm.trans hq')
  exact compareNumbers_eq_some.2 ⟨r, p, hr, hp, compare_trans ho ho'⟩

theorem beq_of_compareNumbers_eq {x y : Float} (h : compareNumbers x y = some .eq) :
    (x == y) = true := by
  obtain ⟨r, q, hr, hq, h⟩ := compareNumbers_eq_some.1 h
  rw [← compare_eq_iff_eq.1 h] at hq
  exact Number.beq_iff.2 ⟨r, hr, hq⟩

/-! ## Values -/

theorem eq_lt_of_isLE {o : Ordering} (h : o.isLE) (hne : o ≠ .eq) : o = .lt := by
  cases o with
  | lt => rfl
  | eq => exact absurd rfl hne
  | gt => cases h

theorem then_lt_of_isLE {o : Ordering} (h : o.isLE) : o.then .lt = .lt := by
  cases o with
  | lt | eq => rfl
  | gt => cases h

theorem compareItems_cons_eq_some {a b : Value} {as bs : List Value} {o : Ordering} :
    compareItems (a :: as) (b :: bs) = some o ↔
      a.compare? b = some .eq ∧ compareItems as bs = some o ∨ a.compare? b = some o ∧ o ≠ .eq := by
  rw [compareItems]
  cases a.compare? b with
  | none => simp
  | some p => cases p <;> simp +contextual [eq_comm]

mutual

/-- The comparison the other way around gives the opposite. -/
theorem compare?_swap (a b : Value) : b.compare? a = (a.compare? b).map Ordering.swap := by
  cases a with
  | null | dict => cases b <;> rfl
  | text s =>
    cases b with
    | text t => exact congrArg some Std.OrientedCmp.eq_swap
    | null | bool | number | list | dict => rfl
  | bool p =>
    cases b with
    | bool | number => exact compareNumbers_swap _ _
    | null | text | list | dict => rfl
  | number x =>
    cases b with
    | bool | number => exact compareNumbers_swap _ _
    | null | text | list | dict => rfl
  | list as =>
    cases b with
    | list bs => exact compareItems_swap as bs
    | null | bool | number | text | dict => rfl
termination_by structural a

theorem compareItems_swap (as bs : List Value) :
    compareItems bs as = (compareItems as bs).map Ordering.swap := by
  cases as with
  | nil => cases bs <;> rfl
  | cons a as =>
    cases bs with
    | nil => rfl
    | cons b bs =>
      rw [compareItems, compareItems, compare?_swap a b, compareItems_swap as bs]
      cases a.compare? b with
      | none => rfl
      | some o => cases o <;> rfl
termination_by structural as

end

mutual

/-- Values on both sides of a third one compare, and in the same way. -/
theorem compare?_trans {a b c : Value} {o o' : Ordering} (h : a.compare? b = some o)
    (h' : b.compare? c = some o') (ho : o.isLE) (ho' : o'.isLE) :
    a.compare? c = some (o.then o') := by
  cases a with
  | null | dict => cases b <;> cases h
  | text s =>
    cases b with
    | text t =>
      cases c with
      | text u =>
        cases h
        cases h'
        exact congrArg some (compare_trans ho ho')
      | null | bool | number | list | dict => cases h'
    | null | bool | number | list | dict => cases h
  | bool p =>
    cases b with
    | bool | number =>
      cases c with
      | bool | number => exact compareNumbers_trans h h' ho ho'
      | null | text | list | dict => cases h'
    | null | text | list | dict => cases h
  | number x =>
    cases b with
    | bool | number =>
      cases c with
      | bool | number => exact compareNumbers_trans h h' ho ho'
      | null | text | list | dict => cases h'
    | null | text | list | dict => cases h
  | list as =>
    cases b with
    | list bs =>
      cases c with
      | list cs => exact compareItems_trans h h' ho ho'
      | null | bool | number | text | dict => cases h'
    | null | bool | number | text | dict => cases h
termination_by structural a

theorem compareItems_trans {as bs cs : List Value} {o o' : Ordering}
    (h : compareItems as bs = some o) (h' : compareItems bs cs = some o') (ho : o.isLE)
    (ho' : o'.isLE) : compareItems as cs = some (o.then o') := by
  cases as with
  | nil =>
    cases bs with
    | nil => cases h; exact h'
    | cons b bs =>
      cases cs with
      | nil => cases h'; cases ho'
      | cons c cs => cases h; rfl
  | cons a as =>
    cases bs with
    | nil => cases h; cases ho
    | cons b bs =>
      cases cs with
      | nil => cases h'; cases ho'
      | cons c cs =>
        rw [compareItems_cons_eq_some] at h h' ⊢
        rcases h with ⟨hab, h⟩ | ⟨hab, hne⟩
        · rcases h' with ⟨hbc, h'⟩ | ⟨hbc, hne'⟩
          · exact Or.inl ⟨compare?_trans hab hbc rfl rfl, compareItems_trans h h' ho ho'⟩
          · obtain rfl := eq_lt_of_isLE ho' hne'
            rw [then_lt_of_isLE ho]
            exact Or.inr ⟨compare?_trans hab hbc rfl rfl, hne'⟩
        · obtain rfl := eq_lt_of_isLE ho hne
          refine Or.inr ⟨(?_ : a.compare? c = some .lt), hne⟩
          rcases h' with ⟨hbc, -⟩ | ⟨hbc, -⟩
          · exact compare?_trans hab hbc rfl rfl
          · exact compare?_trans hab hbc rfl ho'
termination_by structural as

end

/-- What is not greater than a value that is not greater than a third one is not greater than that
one either. -/
theorem exists_compare?_of_isLE {a b c : Value} {o o' : Ordering} (h : a.compare? b = some o)
    (ho : o.isLE) (h' : b.compare? c = some o') (ho' : o'.isLE) :
    ∃ o'', a.compare? c = some o'' ∧ o''.isLE :=
  ⟨_, compare?_trans h h' ho ho', Ordering.isLE_then_iff_and.2 ⟨ho, Or.inr ho'⟩⟩

mutual

/-- Values that compare as equal are equal. -/
theorem same_of_compare?_eq {a b : Value} (h : a.compare? b = some .eq) : a.same b = true := by
  cases a with
  | null | dict => cases b <;> cases h
  | text s =>
    cases b with
    | text t =>
      rw [same, beq_iff_eq]
      exact Std.LawfulEqOrd.eq_of_compare (Option.some.inj h)
    | null | bool | number | list | dict => cases h
  | bool p =>
    cases b with
    | bool q =>
      have hpq := beq_of_compareNumbers_eq h
      revert p q
      decide +kernel
    | number y => exact beq_of_compareNumbers_eq h
    | null | text | list | dict => cases h
  | number x =>
    cases b with
    | bool | number => exact beq_of_compareNumbers_eq h
    | null | text | list | dict => cases h
  | list as =>
    cases b with
    | list bs => exact sameItems_of_compareItems_eq h
    | null | bool | number | text | dict => cases h
termination_by structural a

theorem sameItems_of_compareItems_eq {as bs : List Value} (h : compareItems as bs = some .eq) :
    sameItems as bs = true := by
  cases as with
  | nil =>
    cases bs with
    | nil => rfl
    | cons b bs => cases h
  | cons a as =>
    cases bs with
    | nil => cases h
    | cons b bs =>
      obtain ⟨hhead, htail⟩ : a.compare? b = some .eq ∧ compareItems as bs = some .eq :=
        (compareItems_cons_eq_some.1 h).resolve_right fun h => h.2 rfl
      rw [sameItems, same_of_compare?_eq hhead, sameItems_of_compareItems_eq htail]
      rfl
termination_by structural as

end

theorem compare?_eq_some_swap {a b : Value} {o : Ordering} (h : a.compare? b = some o) :
    b.compare? a = some o.swap := by
  rw [compare?_swap a b, h]
  rfl

/-- Two values that compare. -/
def Comparable (a b : Value) : Prop := ∃ o, a.compare? b = some o

theorem Comparable.symm {a b : Value} (h : a.Comparable b) : b.Comparable a := by
  obtain ⟨o, h⟩ := h
  exact ⟨o.swap, compare?_eq_some_swap h⟩

end Value

end ReactiveScript

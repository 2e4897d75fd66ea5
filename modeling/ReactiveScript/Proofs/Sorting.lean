import ReactiveScript.Helper
import ReactiveScript.Proofs.Checked
import ReactiveScript.Proofs.Value.Order

/-!
# Sorting and picking values

Items that do not compare make `sorted` fail, and no such pair gets past it: where an item is
inserted, it has been compared with all larger ones and with the next one, and the rest is not
larger than that.  To tell equal items apart, every item is taken together with its position.

* `Helper.of_insertValue_eq_ok`, `Helper.of_insertValues_eq_ok` — what inserting one item and all
  items gives.
* `Helper.of_bestOf_eq_ok` — the best item leads all others.
* `Helper.sorted_min_max_spec` — `sorted` succeeds if all items compare with each other, and gives
  them in order, those that are equal as they came; `min` and `max` give an item that leads.
-/

set_option autoImplicit false

namespace ReactiveScript

namespace Helper

/-! ## Sorting -/

/-- An item belongs in front of another: it is less, or it is equal and came first. -/
def Before (p q : Value × ℕ) : Prop :=
  p.1.compare? q.1 = some .lt ∨ p.1.compare? q.1 = some .eq ∧ p.2 < q.2

theorem Before.exists_compare {p q : Value × ℕ} (h : Before p q) :
    ∃ o, p.1.compare? q.1 = some o ∧ o.isLE := by
  rcases h with h | ⟨h, -⟩
  · exact ⟨_, h, rfl⟩
  · exact ⟨_, h, rfl⟩

theorem Before.trans {p q r : Value × ℕ} (h : Before p q) (h' : Before q r) : Before p r := by
  rcases h with h | ⟨h, hlt⟩
  · obtain ⟨o, h', ho⟩ := h'.exists_compare
    exact Or.inl (Value.compare?_trans h h' rfl ho)
  · rcases h' with h' | ⟨h', hlt'⟩
    · exact Or.inl (Value.compare?_trans h h' rfl rfl)
    · exact Or.inr ⟨Value.compare?_trans h h' rfl rfl, hlt.trans hlt'⟩

/-- An item whose comparison with a later one is not less belongs behind it. -/
theorem before_of_compare {p q : Value × ℕ} {o : Ordering} (h : q.1.compare? p.1 = some o)
    (ho : o ≠ .lt) (hlt : p.2 < q.2) : Before p q := by
  have h' := Value.compare?_eq_some_swap h
  cases o with
  | lt => exact absurd rfl ho
  | eq => exact Or.inr ⟨h', hlt⟩
  | gt => exact Or.inl h'

/-- Items in decreasing order, as the sorted part is kept. -/
def Descending (ps : List (Value × ℕ)) : Prop := ps.Pairwise fun p q => Before q p

theorem descending_nil : Descending [] := List.Pairwise.nil

theorem insertValue_cons_of_lt {v w : Value} {ws : List Value} (h : v.compare? w = some .lt) :
    insertValue v (w :: ws) = (insertValue v ws).map (w :: ·) := by
  rw [insertValue, h]

theorem insertValue_cons_of_not_lt {v w : Value} {ws : List Value} {o : Ordering}
    (h : v.compare? w = some o) (ho : o ≠ .lt) : insertValue v (w :: ws) = .ok (v :: w :: ws) := by
  rw [insertValue, h]
  cases o with
  | lt => exact absurd rfl ho
  | eq | gt => rfl

/-- An item that is inserted compares with all that are there, and goes where it belongs. -/
theorem of_insertValue_eq_ok {v : Value} {n : ℕ} {ps : List (Value × ℕ)} {vs : List Value}
    (hps : Descending ps) (hn : ∀ p ∈ ps, p.2 < n)
    (h : insertValue v (ps.map Prod.fst) = .ok vs) :
    (∀ p ∈ ps, v.Comparable p.1) ∧
      ∃ qs, vs = qs.map Prod.fst ∧ qs.Perm ((v, n) :: ps) ∧ Descending qs := by
  induction ps generalizing vs with
  | nil =>
    cases h
    exact ⟨List.forall_mem_nil _, [(v, n)], rfl, .refl _, List.pairwise_singleton _ _⟩
  | cons p ps ih =>
    obtain ⟨hp, hps⟩ := List.pairwise_cons.1 hps
    obtain ⟨hpn, hn⟩ := List.forall_mem_cons.1 hn
    rw [List.map_cons] at h
    cases hcompare : v.compare? p.1 with
    | none =>
      rw [insertValue, hcompare] at h
      cases h
    | some o =>
      by_cases ho : o = .lt
      · -- it is less: further down
        subst ho
        rw [insertValue_cons_of_lt hcompare] at h
        obtain ⟨vs, hvs, rfl⟩ := exists_of_map h
        obtain ⟨hcomparable, qs, rfl, hperm, hqs⟩ := ih hps hn hvs
        refine ⟨List.forall_mem_cons.2 ⟨⟨_, hcompare⟩, hcomparable⟩, p :: qs, rfl,
          (hperm.cons p).trans (.swap _ _ _), List.pairwise_cons.2 ⟨fun q hq => ?_, hqs⟩⟩
        rcases List.mem_cons.1 (hperm.mem_iff.1 hq) with rfl | hq
        · exact Or.inl hcompare
        · exact hp q hq
      · -- it is not less: here, and all that is below is not larger either
        rw [insertValue_cons_of_not_lt hcompare ho] at h
        cases h
        have hbefore : Before p (v, n) := before_of_compare hcompare ho hpn
        have hall : ∀ q ∈ p :: ps, Before q (v, n) :=
          List.forall_mem_cons.2 ⟨hbefore, fun q hq => (hp q hq).trans hbefore⟩
        refine ⟨fun q hq => ?_, (v, n) :: p :: ps, rfl, .refl _,
          List.pairwise_cons.2 ⟨hall, List.pairwise_cons.2 ⟨hp, hps⟩⟩⟩
        obtain ⟨o, hle, -⟩ := (hall q hq).exists_compare
        exact Value.Comparable.symm ⟨o, hle⟩

/-- An item that compares with all that are there is inserted. -/
theorem exists_insertValue_eq_ok {v : Value} {ws : List Value}
    (h : ∀ w ∈ ws, v.Comparable w) : ∃ vs, insertValue v ws = .ok vs ∧ vs.Perm (v :: ws) := by
  induction ws with
  | nil => exact ⟨[v], rfl, .refl _⟩
  | cons w ws ih =>
    obtain ⟨⟨o, hcompare⟩, hws⟩ := List.forall_mem_cons.1 h
    by_cases ho : o = .lt
    · subst ho
      obtain ⟨vs, hvs, hperm⟩ := ih hws
      refine ⟨w :: vs, ?_, (hperm.cons w).trans (.swap _ _ _)⟩
      rw [insertValue_cons_of_lt hcompare, hvs]
      rfl
    · exact ⟨v :: w :: ws, insertValue_cons_of_not_lt hcompare ho, .refl _⟩

/-- Items that are inserted one after another compare with each other and with all that are there,
and go where they belong. -/
theorem of_insertValues_eq_ok {xs : List Value} {n : ℕ} {ps : List (Value × ℕ)} {vs : List Value}
    (hps : Descending ps) (hn : ∀ p ∈ ps, p.2 < n)
    (h : insertValues (ps.map Prod.fst) xs = .ok vs) :
    (xs.Pairwise Value.Comparable ∧ ∀ v ∈ xs, ∀ p ∈ ps, v.Comparable p.1) ∧
      ∃ qs, vs = qs.map Prod.fst ∧ qs.Perm (xs.zipIdx n ++ ps) ∧ Descending qs := by
  induction xs generalizing n ps with
  | nil =>
    cases h
    exact ⟨⟨List.Pairwise.nil, List.forall_mem_nil _⟩, ps, rfl, .refl _, hps⟩
  | cons x xs ih =>
    rw [insertValues] at h
    split at h
    · rename_i done hdone
      obtain ⟨hx, qs, rfl, hperm, hqs⟩ := of_insertValue_eq_ok hps hn hdone
      have hlt : ∀ q ∈ qs, q.2 < n + 1 := by
        intro q hq
        rcases List.mem_cons.1 (hperm.mem_iff.1 hq) with rfl | hq
        · exact Nat.lt_succ_self n
        · exact Nat.lt_succ_of_lt (hn q hq)
      obtain ⟨⟨hpairwise, hcross⟩, rs, rfl, hrs, hdescending⟩ := ih hqs hlt h
      have hall : ∀ v ∈ xs, v.Comparable x ∧ ∀ p ∈ ps, v.Comparable p.1 := by
        intro v hv
        exact ⟨hcross v hv _ (hperm.mem_iff.2 List.mem_cons_self),
          fun p hp => hcross v hv p (hperm.mem_iff.2 (List.mem_cons_of_mem _ hp))⟩
      refine ⟨⟨List.pairwise_cons.2 ⟨fun v hv => (hall v hv).1.symm, hpairwise⟩,
        List.forall_mem_cons.2 ⟨hx, fun v hv => (hall v hv).2⟩⟩, rs, rfl, ?_, hdescending⟩
      rw [List.zipIdx_cons]
      exact hrs.trans ((hperm.append_left _).trans List.perm_middle)
    · cases h

/-- Items that compare with each other and with all that are there are inserted. -/
theorem exists_insertValues_eq_ok {xs done : List Value} (hxs : xs.Pairwise Value.Comparable)
    (h : ∀ v ∈ xs, ∀ w ∈ done, v.Comparable w) : ∃ vs, insertValues done xs = .ok vs := by
  induction xs generalizing done with
  | nil => exact ⟨done, rfl⟩
  | cons x xs ih =>
    obtain ⟨hx, hxs⟩ := List.pairwise_cons.1 hxs
    obtain ⟨hdone, h⟩ := List.forall_mem_cons.1 h
    obtain ⟨vs, hvs, hperm⟩ := exists_insertValue_eq_ok hdone
    have hvs' : ∀ v ∈ xs, ∀ w ∈ vs, v.Comparable w := by
      intro v hv w hw
      rcases List.mem_cons.1 (hperm.mem_iff.1 hw) with rfl | hw
      · exact (hx v hv).symm
      · exact h v hv w hw
    obtain ⟨ws, hws⟩ := ih hxs hvs'
    exact ⟨ws, by rw [insertValues, hvs]; exact hws⟩

theorem pairwise_comparable_iff {xs : List Value} : xs.Pairwise Value.Comparable ↔
    ∀ (i j : ℕ) (hi : i < xs.length) (hj : j < xs.length), i ≠ j → xs[i].Comparable xs[j] := by
  rw [List.pairwise_iff_getElem]
  constructor
  · intro h i j hi hj hne
    rcases Nat.lt_or_gt_of_ne hne with hlt | hlt
    · exact h i j hi hj hlt
    · exact (h j i hj hi hlt).symm
  · exact fun h i j hi hj hlt => h i j hi hj hlt.ne

/-- Sorting succeeds if all items compare with each other. -/
theorem exists_sortValues_iff {xs : List Value} :
    (∃ vs, sortValues xs = .ok vs) ↔ xs.Pairwise Value.Comparable := by
  constructor
  · rintro ⟨vs, h⟩
    obtain ⟨vs, hvs, -⟩ := exists_of_map h
    exact (of_insertValues_eq_ok (n := 0) descending_nil (List.forall_mem_nil _) hvs).1.1
  · intro h
    obtain ⟨vs, hvs⟩ := exists_insertValues_eq_ok h fun _ _ => List.forall_mem_nil _
    exact ⟨vs.reverse, by rw [sortValues, hvs]; rfl⟩

/-- Sorting puts items in order, and those that are equal as they came. -/
theorem of_sortValues_eq_ok {xs vs : List Value} (h : sortValues xs = .ok vs) :
    ∃ ps : List (Value × ℕ), ps.Perm xs.zipIdx ∧ ps.Pairwise Before ∧ vs = ps.map Prod.fst := by
  obtain ⟨vs, hvs, rfl⟩ := exists_of_map h
  obtain ⟨-, qs, rfl, hperm, hqs⟩ :=
    of_insertValues_eq_ok (n := 0) descending_nil (List.forall_mem_nil _) hvs
  rw [List.append_nil] at hperm
  exact ⟨qs.reverse, qs.reverse_perm.trans hperm, List.pairwise_reverse.2 hqs,
    List.map_reverse.symm⟩

/-- A call of `sorted` with a list of items, and whether they are to come in decreasing order. -/
def Sorts (args : Arguments) (xs : List Value) (decreasing : Bool) : Prop :=
  ∃ b : Bound, args.bind "sorted" ["iterable", "reverse"] = .ok b ∧
    b.required "iterable" = .ok (.list xs) ∧
    ((b.optional "reverse").map Value.isTruthy).getD false = decreasing

theorem Sorts.sortArgs_eq {args : Arguments} {xs : List Value} {decreasing : Bool}
    (h : Sorts args xs decreasing) : sortArgs args = .ok (xs, decreasing) := by
  obtain ⟨b, hb, hxs, rfl⟩ := h
  rw [sortArgs, bind_of_ok hb, bind_of_ok hxs]
  rfl

/-- What `sorted` gives is the sorted list, or that list from its end. -/
theorem sortedOf_eq_ok_iff {args : Arguments} {xs : List Value} {decreasing : Bool} {v : Value}
    (h : Sorts args xs decreasing) : sortedOf args = .ok v ↔
      ∃ vs, sortValues xs = .ok vs ∧ v = .list (if decreasing then vs.reverse else vs) := by
  rw [sortedOf, bind_of_ok h.sortArgs_eq]
  dsimp only
  cases sortValues xs with
  | ok vs =>
    constructor
    · intro hv
      cases hv
      exact ⟨vs, rfl, rfl⟩
    · rintro ⟨_, heq, rfl⟩
      cases heq
      rfl
  | error pair => exact ⟨nofun, nofun⟩

/-- Inserting comes to two items that do not compare if there are any. -/
theorem isSome_clash?_iff {xs : List Value} :
    (clash? xs).isSome = true ↔ ¬xs.Pairwise Value.Comparable := by
  rw [← exists_sortValues_iff, clash?]
  cases sortValues xs with
  | ok vs => exact ⟨nofun, fun h => absurd ⟨vs, rfl⟩ h⟩
  | error pair => exact ⟨fun _ => nofun, fun _ => rfl⟩

/-- Only what `sorted` is given, with more items than are inserted, not all of which compare, is up to
the library. -/
theorem of_disordered?_eq_some {h : Helper} {args : Arguments} {items : List Value}
    (heq : h.disordered? args = some items) :
    h = .sorted ∧ (∃ decreasing, sortArgs args = .ok (items, decreasing)) ∧
      maxInserted < items.length ∧ ¬items.Pairwise Value.Comparable := by
  unfold disordered? at heq
  split at heq
  · rename_i hargs
    split at heq
    · rename_i hitems
      cases heq
      exact ⟨rfl, ⟨_, hargs⟩, hitems.1, isSome_clash?_iff.1 hitems.2⟩
    · cases heq
  · cases heq

/-! ## Picking -/

/-- A value leads another if the other one is not better. -/
def Leads (wanted : Ordering) (v w : Value) : Prop :=
  ∃ o, v.compare? w = some o ∧ o ≠ wanted.swap

theorem leads_lt_iff {v w : Value} : Leads .lt v w ↔ ∃ o, v.compare? w = some o ∧ o.isLE := by
  simp only [Leads, Ordering.isLE_iff_ne_gt, Ordering.swap_lt]

theorem leads_gt_iff {v w : Value} : Leads .gt v w ↔ ∃ o, v.compare? w = some o ∧ o.isGE := by
  simp only [Leads, Ordering.isGE_iff_ne_lt, Ordering.swap_gt]

theorem Leads.swap {wanted : Ordering} {v w : Value} (h : Leads wanted v w) :
    Leads wanted.swap w v := by
  obtain ⟨o, h, ho⟩ := h
  exact ⟨o.swap, Value.compare?_eq_some_swap h, fun heq => ho (Ordering.swap_inj.1 heq)⟩

theorem Leads.trans {wanted : Ordering} (hwanted : wanted ≠ .eq) {u v w : Value}
    (h : Leads wanted u v) (h' : Leads wanted v w) : Leads wanted u w := by
  have hlt : ∀ {u v w : Value}, Leads .lt u v → Leads .lt v w → Leads .lt u w := by
    intro u v w h h'
    obtain ⟨o, h, ho⟩ := leads_lt_iff.1 h
    obtain ⟨o', h', ho'⟩ := leads_lt_iff.1 h'
    exact leads_lt_iff.2 (Value.exists_compare?_of_isLE h ho h' ho')
  cases wanted with
  | lt => exact hlt h h'
  | eq => exact absurd rfl hwanted
  | gt => exact (hlt h'.swap h.swap).swap

/-- The best of some items leads all the others. -/
theorem of_bestOf_eq_ok {name : String} {wanted : Ordering} (hwanted : wanted ≠ .eq)
    {best r : Value} {vs before after : List Value}
    (hbest : ∀ w ∈ before ++ after, Leads wanted best w)
    (h : bestOf name wanted best vs = .ok r) :
    ∃ before' after', before ++ best :: after ++ vs = before' ++ r :: after' ∧
      ∀ w ∈ before' ++ after', Leads wanted r w := by
  induction vs generalizing best before after with
  | nil =>
    cases h
    exact ⟨before, after, List.append_nil _, hbest⟩
  | cons v vs ih =>
    rw [bestOf] at h
    split at h
    · rename_i o hcompare
      split at h
      · -- a better one: it leads the best so far, and so all that this one leads
        rename_i ho
        subst ho
        have hv : Leads o v best := ⟨o, hcompare, by cases o <;> simp at hwanted ⊢⟩
        have hall : ∀ w ∈ (before ++ best :: after) ++ [], Leads o v w := by
          rw [List.append_nil]
          intro w hw
          rcases List.mem_cons.1 (List.perm_middle.mem_iff.1 hw) with rfl | hw
          · exact hv
          · exact hv.trans hwanted (hbest w hw)
        simpa using ih hall h
      · rename_i ho
        have hv : Leads wanted best v :=
          ⟨o.swap, Value.compare?_eq_some_swap hcompare, fun heq => ho (Ordering.swap_inj.1 heq)⟩
        have hall : ∀ w ∈ before ++ (after ++ [v]), Leads wanted best w := by
          rw [← List.append_assoc]
          exact List.forall_mem_append.2 ⟨hbest, List.forall_mem_singleton.2 hv⟩
        simpa using ih hall h
    · cases h

theorem of_extreme_list_eq_ok {name : String} {wanted : Ordering} (hwanted : wanted ≠ .eq)
    {xs : List Value} {r : Value} (h : extreme name wanted ⟨[.list xs], []⟩ = .ok r) :
    ∃ before after, xs = before ++ r :: after ∧ ∀ w ∈ before ++ after, Leads wanted r w := by
  cases xs with
  | nil => cases h
  | cons x xs =>
    have hx : ∀ w ∈ ([] : List Value) ++ [], Leads wanted x w := List.forall_mem_nil _
    exact of_bestOf_eq_ok hwanted hx h

/-! ## The helpers -/

/-- **Sorting and picking are right on all values.**  The order of values can be turned around, what
lies between two values links them, and values that compare as equal are equal.  So `sorted`
succeeds exactly if every two items at different positions compare, and gives the items in order,
those that are equal as they came; and what `min` and `max` give compares with all other items, and
none of them is less, or greater. -/
theorem sorted_min_max_spec :
    (∀ a b : Value, b.compare? a = (a.compare? b).map Ordering.swap) ∧
    (∀ (a b c : Value) (o o' : Ordering), a.compare? b = some o → o.isLE →
      b.compare? c = some o' → o'.isLE → ∃ o'', a.compare? c = some o'' ∧ o''.isLE) ∧
    (∀ a b : Value, a.compare? b = some .eq → a.same b = true) ∧
    (∀ (args : Arguments) (xs : List Value) (decreasing : Bool), Sorts args xs decreasing →
      ((∃ v, Helper.sorted.call args = .ok v) ↔ ∀ (i j : ℕ) (hi : i < xs.length)
        (hj : j < xs.length), i ≠ j → xs[i].Comparable xs[j]) ∧
      ∀ v, Helper.sorted.call args = .ok v → ∃ ps : List (Value × ℕ), ps.Perm xs.zipIdx ∧
        ps.Pairwise Before ∧
        v = .list (if decreasing then (ps.map Prod.fst).reverse else ps.map Prod.fst)) ∧
    (∀ (xs : List Value) (r : Value), Helper.min.call ⟨[.list xs], []⟩ = .ok r →
      ∃ before after, xs = before ++ r :: after ∧
        ∀ w ∈ before ++ after, ∃ o, r.compare? w = some o ∧ o.isLE) ∧
    (∀ (xs : List Value) (r : Value), Helper.max.call ⟨[.list xs], []⟩ = .ok r →
      ∃ before after, xs = before ++ r :: after ∧
        ∀ w ∈ before ++ after, ∃ o, r.compare? w = some o ∧ o.isGE) := by
  refine ⟨Value.compare?_swap, fun _ _ _ _ _ => Value.exists_compare?_of_isLE,
    fun _ _ => Value.same_of_compare?_eq, ?_, ?_, ?_⟩
  · intro args xs decreasing h
    refine ⟨?_, fun v hv => ?_⟩
    · rw [← pairwise_comparable_iff, ← exists_sortValues_iff]
      constructor
      · rintro ⟨v, hv⟩
        obtain ⟨vs, hvs, -⟩ := (sortedOf_eq_ok_iff h).1 hv
        exact ⟨vs, hvs⟩
      · rintro ⟨vs, hvs⟩
        exact ⟨_, (sortedOf_eq_ok_iff h).2 ⟨vs, hvs, rfl⟩⟩
    · obtain ⟨vs, hvs, rfl⟩ := (sortedOf_eq_ok_iff h).1 hv
      obtain ⟨ps, hperm, hps, rfl⟩ := of_sortValues_eq_ok hvs
      exact ⟨ps, hperm, hps, rfl⟩
  · intro xs r h
    obtain ⟨before, after, hxs, hr⟩ := of_extreme_list_eq_ok (by decide) h
    exact ⟨before, after, hxs, fun w hw => leads_lt_iff.1 (hr w hw)⟩
  · intro xs r h
    obtain ⟨before, after, hxs, hr⟩ := of_extreme_list_eq_ok (by decide) h
    exact ⟨before, after, hxs, fun w hw => leads_gt_iff.1 (hr w hw)⟩

/-- Lists whose items are of different types, in decreasing order; the second one differs from the
others in its first item, so that its second one is not looked at. -/
theorem sorted_mixed :
    ∃ v, Helper.sorted.call ⟨[.list [.list [.number 1, .text "b"], .list [.bool false, .null],
        .list [.bool true, .text "a"]]], [("reverse", .text "yes")]⟩ = .ok v ∧
      ∃ ps : List (Value × ℕ), ps.Perm [(.list [.number 1, .text "b"], 0),
          (.list [.bool false, .null], 1), (.list [.bool true, .text "a"], 2)] ∧
        ps.Pairwise Before ∧ v = .list (ps.map Prod.fst).reverse := by
  obtain ⟨hsucceeds, hresult⟩ := sorted_min_max_spec.2.2.2.1
    ⟨[.list [.list [.number 1, .text "b"], .list [.bool false, .null],
      .list [.bool true, .text "a"]]], [("reverse", .text "yes")]⟩ _ true ⟨_, rfl, rfl, rfl⟩
  have hcomparable : [Value.list [.number 1, .text "b"], .list [.bool false, .null],
      .list [.bool true, .text "a"]].Pairwise Value.Comparable := by
    simp only [List.pairwise_cons, List.forall_mem_cons]
    refine ⟨⟨⟨.gt, ?_⟩, ⟨.gt, ?_⟩, List.forall_mem_nil _⟩, ⟨⟨.lt, ?_⟩, List.forall_mem_nil _⟩,
      List.forall_mem_nil _, List.Pairwise.nil⟩ <;> decide +kernel
  obtain ⟨v, hv⟩ := hsucceeds.2 (pairwise_comparable_iff.1 hcomparable)
  exact ⟨v, hv, hresult v hv⟩

end Helper

end ReactiveScript

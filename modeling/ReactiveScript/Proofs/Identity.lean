import Mathlib.Algebra.Group.Nat.Defs
import ReactiveScript.Program
import ReactiveScript.Proofs.Token.Position

/-!
# Ids tell positions apart

A number in decimal, with or without zeros in front, can be read back, and it ends where something
else than a digit stands.  So a parameter is known by its name, and a node by the position of its
statement.  Numbers of the same length, zeros in front included, compare as their texts do; a number
that is longer than the width is compared by the digits it begins with.

* `paramName_injective` — parameters have different names.
* `NodeId.ofStatement_inj` — the id of a node gives its position away.
* `NodeId.ofStatement_lt_iff`, `NodeId.ofStatement_lt` — which ids stand in the order of the source,
  and that all do whose positions fit the widths.
-/

set_option autoImplicit false

namespace ReactiveScript

theorem toList_toString (n : Nat) : (toString n).toList = Nat.toDigits 10 n := Nat.toList_repr

theorem toString_injective : Function.Injective (toString : Nat → String) := by
  intro n m h
  have hdigits : Nat.toDigits 10 n = Nat.toDigits 10 m := by
    rw [← toList_toString, ← toList_toString, h]
  rw [← Nat.ofDigitChars_ten_toDigits (n := n), hdigits, Nat.ofDigitChars_ten_toDigits]

/-- Parameters have different names. -/
theorem paramName_injective : Function.Injective paramName := fun _ _ h =>
  toString_injective (String.append_right_inj _ |>.1 h)

/-! ## Padded numbers -/

theorem toList_padded (width n : Nat) :
    (padded width n).toList
      = List.replicate (width - (toString n).length) '0' ++ Nat.toDigits 10 n := by
  rw [padded, String.toList_append, String.toList_ofList, toList_toString]

theorem isDigit_of_mem_padded {width n : Nat} {c : Char} (h : c ∈ (padded width n).toList) :
    c.isDigit = true := by
  rw [toList_padded, List.mem_append] at h
  rcases h with h | h
  · rw [List.eq_of_mem_replicate h]
    rfl
  · exact Nat.isDigit_of_mem_toDigits (by decide) (by decide) h

theorem ofDigitChars_replicate_append (k : Nat) (cs : List Char) :
    Nat.ofDigitChars 10 (List.replicate k '0' ++ cs) 0 = Nat.ofDigitChars 10 cs 0 := by
  induction k with
  | zero => rfl
  | succ k ih =>
    rw [List.replicate_succ, List.cons_append, Nat.ofDigitChars_cons]
    exact ih

/-- A padded number can be read back. -/
theorem ofDigitChars_padded (width n : Nat) :
    Nat.ofDigitChars 10 (padded width n).toList 0 = n := by
  rw [toList_padded, ofDigitChars_replicate_append, Nat.ofDigitChars_ten_toDigits]

/-- A padded number ends where an underscore stands. -/
theorem padded_append_inj {width n m : Nat} {cs ds : List Char}
    (h : (padded width n).toList ++ '_' :: cs = (padded width m).toList ++ '_' :: ds) :
    n = m ∧ cs = ds := by
  have htake : ∀ (k : Nat) (es : List Char),
      ((padded width k).toList ++ '_' :: es).takeWhile Char.isDigit = (padded width k).toList := by
    intro k es
    rw [List.takeWhile_append_of_pos fun c hc => isDigit_of_mem_padded hc,
      List.takeWhile_cons_of_neg (by decide), List.append_nil]
  have hdigits := congrArg (List.takeWhile Char.isDigit) h
  rw [htake, htake] at hdigits
  refine ⟨?_, ?_⟩
  · rw [← ofDigitChars_padded width n, hdigits, ofDigitChars_padded]
  · rw [hdigits] at h
    exact (List.cons.inj (List.append_cancel_left h)).2

/-! ## Nodes -/

/-- **The id of a node gives the position of its statement away.** -/
theorem NodeId.ofStatement_inj {kind kind' : String} {s s' : Span}
    (h : NodeId.ofStatement kind s = NodeId.ofStatement kind' s') : s = s' := by
  have htext := congrArg (fun id => id.text.toList) h
  have hunderscore : "_".toList = ['_'] := rfl
  simp only [ofStatement, String.toList_append, List.append_assoc, hunderscore,
    List.singleton_append] at htext
  obtain ⟨hline, hrest⟩ := padded_append_inj (List.append_cancel_left htext)
  obtain ⟨hcol, -⟩ := padded_append_inj hrest
  cases s
  cases s'
  cases hline
  cases hcol
  rfl

/-! ## The order of ids -/

theorem append_left_lt_iff (as : List Char) {bs cs : List Char} :
    as ++ bs < as ++ cs ↔ bs < cs := by
  induction as with
  | nil => rfl
  | cons a as ih => rw [List.cons_append, List.cons_append, List.cons_lt_cons_self, ih]

/-- What follows after two texts of the same length makes no difference to their order. -/
theorem append_lt_append {as bs : List Char} (hlength : as.length = bs.length) (h : as < bs)
    (cs ds : List Char) : as ++ cs < bs ++ ds := by
  induction as generalizing bs with
  | nil =>
    rw [List.length_eq_zero_iff.1 hlength.symm] at h
    exact absurd h (List.lt_irrefl _)
  | cons a as ih =>
    cases bs with
    | nil => cases hlength
    | cons b bs =>
      rw [List.cons_append, List.cons_append, List.cons_lt_cons_iff]
      rcases List.cons_lt_cons_iff.1 h with hab | ⟨hab, h⟩
      · exact Or.inl hab
      · exact Or.inr ⟨hab, ih (Nat.succ.inj hlength) h⟩

theorem padded_one {n : Nat} (hn : n < 10) : (padded 1 n).toList = [n.digitChar] := by
  rw [toList_padded, ← String.length_toList, toList_toString, Nat.toDigits_of_lt_base hn]
  rfl

/-- The last digit of a padded number. -/
theorem padded_succ (width n : Nat) :
    (padded (width + 2) n).toList = (padded (width + 1) (n / 10)).toList ++ [(n % 10).digitChar] := by
  rw [toList_padded, toList_padded, ← String.length_toList, ← String.length_toList,
    toList_toString, toList_toString]
  by_cases hn : n < 10
  · rw [Nat.div_eq_of_lt hn, Nat.mod_eq_of_lt hn, Nat.toDigits_of_lt_base hn,
      Nat.toDigits_of_lt_base (by decide)]
    show List.replicate (width + 1) '0' ++ _ = List.replicate width '0' ++ ['0'] ++ _
    rw [List.replicate_succ']
  · rw [Nat.toDigits_of_base_le (by decide) (Nat.le_of_not_lt hn), List.length_append,
      List.length_singleton, show width + 2 = width + 1 + 1 from rfl, Nat.add_sub_add_right,
      List.append_assoc]

theorem length_toList_padded (width n : Nat) :
    (padded width n).toList.length = max width (Nat.toDigits 10 n).length := by
  rw [toList_padded, ← String.length_toList, toList_toString, List.length_append,
    List.length_replicate]
  omega

/-- A padded number is as long as a width says if and only if it fits it. -/
theorem length_padded_le_iff {width k n : Nat} (hk : 0 < k) :
    (padded width n).toList.length ≤ k ↔ width ≤ k ∧ n < 10 ^ k := by
  rw [length_toList_padded, Nat.max_le, Nat.length_toDigits_le_iff (by decide) hk]

theorem length_padded {width n : Nat} (hn : n < 10 ^ (width + 1)) :
    (padded (width + 1) n).toList.length = width + 1 := by
  refine Nat.le_antisymm ((length_padded_le_iff width.succ_pos).2 ⟨Nat.le_refl _, hn⟩) ?_
  rw [length_toList_padded]
  exact Nat.le_max_left _ _

/-- A padded number is padded to its own length. -/
theorem padded_length (width n : Nat) :
    padded (padded width n).toList.length n = padded width n := by
  refine String.toList_inj.1 ?_
  rw [length_toList_padded, toList_padded, toList_padded, ← String.length_toList, toList_toString]
  congr 2
  omega

theorem length_padded_pos (width n : Nat) : 0 < (padded width n).toList.length := by
  rw [length_toList_padded]
  exact Nat.lt_of_lt_of_le Nat.length_toDigits_pos (Nat.le_max_right _ _)

theorem length_padded_mono (width : Nat) {n m : Nat} (h : n ≤ m) :
    (padded width n).toList.length ≤ (padded width m).toList.length := by
  have hm := (length_padded_le_iff (length_padded_pos width m)).1 (Nat.le_refl _)
  exact (length_padded_le_iff (length_padded_pos width m)).2 ⟨hm.1, Nat.lt_of_le_of_lt h hm.2⟩

/-- The digits that a padded number begins with. -/
theorem exists_padded_eq_append (width k m : Nat) :
    ∃ ds, ds.length = k ∧
      (padded (width + 1 + k) m).toList = (padded (width + 1) (m / 10 ^ k)).toList ++ ds := by
  induction k generalizing m with
  | zero => exact ⟨[], rfl, by rw [Nat.pow_zero, Nat.div_one, List.append_nil, Nat.add_zero]⟩
  | succ k ih =>
    obtain ⟨ds, hlength, hds⟩ := ih (m / 10)
    refine ⟨ds ++ [(m % 10).digitChar], by rw [List.length_append, hlength]; rfl, ?_⟩
    rw [← List.append_assoc, Nat.pow_succ', ← Nat.div_div_eq_div_mul, ← hds,
      show width + 1 + (k + 1) = width + k + 2 by omega, padded_succ,
      show width + k + 1 = width + 1 + k by omega]

theorem digitChar_lt {n m : Nat} (h : n < m) (hm : m < 10) : n.digitChar < m.digitChar := by
  have : ∀ m < 10, ∀ n < m, n.digitChar < m.digitChar := by decide
  exact this m hm n h

/-- Numbers that fit the width are padded in order. -/
theorem padded_lt {width n m : Nat} (h : n < m) (hm : m < 10 ^ (width + 1)) :
    (padded (width + 1) n).toList < (padded (width + 1) m).toList := by
  induction width generalizing n m with
  | zero =>
    have hm : m < 10 := by simpa using hm
    rw [padded_one hm, padded_one (Nat.lt_trans h hm), List.cons_lt_cons_iff]
    exact Or.inl (digitChar_lt h hm)
  | succ width ih =>
    have hm' : m / 10 < 10 ^ (width + 1) := by rw [Nat.div_lt_iff_lt_mul (by decide)]; exact hm
    rw [padded_succ, padded_succ]
    rcases Nat.lt_or_eq_of_le (Nat.div_le_div_right (Nat.le_of_lt h)) with hlt | heq
    · refine append_lt_append ?_ (ih hlt hm') _ _
      rw [length_padded (Nat.lt_trans hlt hm'), length_padded hm']
    · rw [heq]
      refine List.append_left_lt ?_
      rw [List.cons_lt_cons_iff]
      exact Or.inl (digitChar_lt (by omega) (Nat.mod_lt _ (by decide)))

/-- A number, padded to a width, is less than the number that the other one begins with: its first
digits, as many as the former has. -/
def ReadsBelow (width n m : Nat) : Prop :=
  n < m / 10 ^ ((padded width m).toList.length - (padded width n).toList.length)

instance (width n m : Nat) : Decidable (ReadsBelow width n m) :=
  inferInstanceAs (Decidable (_ < _))

/-- Numbers that fit the width begin with all of their digits. -/
theorem readsBelow_of_lt {width n m : Nat} (h : n < m) (hm : m < 10 ^ (width + 1)) :
    ReadsBelow (width + 1) n m := by
  rw [ReadsBelow, length_padded (Nat.lt_trans h hm), length_padded hm, Nat.sub_self, Nat.pow_zero,
    Nat.div_one]
  exact h

theorem lt_underscore_of_isDigit {c : Char} (h : c.isDigit = true) : c < '_' := by
  simp only [Char.isDigit, Bool.and_eq_true, decide_eq_true_eq] at h
  exact Nat.lt_of_le_of_lt h.2 (by decide)

/-- **Of two padded numbers with an underscore behind them, the lesser comes first if and only if it
is less than the digits that the greater begins with.**  The underscore comes after all digits, so
the shorter text is the later one if the other begins with it. -/
theorem padded_append_lt_iff {width n m : Nat} (h : n < m) {cs ds : List Char} :
    (padded width n).toList ++ '_' :: cs < (padded width m).toList ++ '_' :: ds ↔
      ReadsBelow width n m := by
  obtain ⟨a, ha⟩ := Nat.exists_eq_succ_of_ne_zero (Nat.ne_of_gt (length_padded_pos width n))
  obtain ⟨k, hk⟩ := Nat.exists_eq_add_of_le (length_padded_mono width (Nat.le_of_lt h))
  rw [ha] at hk
  have hn : n < 10 ^ (a + 1) := ((length_padded_le_iff a.succ_pos).1 (Nat.le_of_eq ha)).2
  have hm : m < 10 ^ (a + 1 + k) := ((length_padded_le_iff (by omega)).1 (Nat.le_of_eq hk)).2
  have hq : m / 10 ^ k < 10 ^ (a + 1) := by
    rw [Nat.div_lt_iff_lt_mul (Nat.pow_pos (by decide)), ← Nat.pow_add]
    exact hm
  obtain ⟨es, hes, hsplit⟩ := exists_padded_eq_append a k m
  have hpadded : padded width n = padded (a + 1) n := by rw [← padded_length width n, ha]
  have hpadded' : padded width m = padded (a + 1 + k) m := by rw [← padded_length width m, hk]
  have hlength :
      (padded (a + 1) n).toList.length = (padded (a + 1) (m / 10 ^ k)).toList.length := by
    rw [length_padded hn, length_padded hq]
  rw [ReadsBelow, ha, hk, Nat.add_sub_cancel_left, hpadded, hpadded', hsplit, List.append_assoc]
  rcases Nat.lt_trichotomy n (m / 10 ^ k) with hlt | heq | hgt
  · exact iff_of_true (append_lt_append hlength (padded_lt hlt hq) _ _) hlt
  · -- The greater one has the same digits and one more, which comes before the underscore.
    refine iff_of_false (fun hlt => ?_) (heq ▸ Nat.lt_irrefl _)
    rw [heq, append_left_lt_iff] at hlt
    cases es with
    | nil =>
      rw [← hes, List.length_nil, Nat.pow_zero, Nat.div_one] at heq
      exact Nat.ne_of_lt h heq
    | cons c es =>
      have hmem : c ∈ (padded (a + 1 + k) m).toList := by simp [hsplit]
      have hc := lt_underscore_of_isDigit (isDigit_of_mem_padded hmem)
      rcases List.cons_lt_cons_iff.1 hlt with hlt | ⟨heq, -⟩
      · exact Char.lt_asymm hlt hc
      · exact Char.lt_irrefl _ (heq ▸ hc)
  · refine iff_of_false (fun hlt => ?_) (Nat.lt_asymm hgt)
    have hgt' := append_lt_append hlength.symm (padded_lt hgt hn)
    exact List.lt_irrefl _ (List.lt_trans hlt (hgt' _ _))

/-! ## Nodes in order -/

/-- The position of a statement, as its id spells it, comes before that of a later one: numbers
with more digits than their width count by the digits that they begin with. -/
def Span.ReadsBefore (s t : Span) : Prop :=
  if s.line = t.line then ReadsBelow 3 s.col t.col else ReadsBelow 5 s.line t.line

instance (s t : Span) : Decidable (s.ReadsBefore t) := inferInstanceAs (Decidable (ite _ _ _))

/-- Positions that fit the widths are spelt in the order of the source. -/
theorem Span.Before.readsBefore {s t : Span} (h : s.Before t)
    (ht : t.line < 10 ^ 5 ∧ t.col < 10 ^ 3) : s.ReadsBefore t := by
  rw [ReadsBefore]
  rcases h with hline | ⟨hline, hcol⟩
  · rw [if_neg (Nat.ne_of_lt hline)]
    exact readsBelow_of_lt hline ht.1
  · rw [if_pos hline]
    exact readsBelow_of_lt hcol ht.2

/-- **The ids of two statements stand in the order of the source if and only if their positions do
as they are spelt.** -/
theorem NodeId.ofStatement_lt_iff {kind kind' : String} {s t : Span} (h : s.Before t) :
    (NodeId.ofStatement kind s).text < (NodeId.ofStatement kind' t).text ↔ s.ReadsBefore t := by
  have hunderscore : "_".toList = ['_'] := rfl
  rw [String.lt_iff]
  simp only [ofStatement, String.toList_append, List.append_assoc, hunderscore,
    List.cons_append, List.nil_append, append_left_lt_iff, Span.ReadsBefore]
  rcases h with hline | ⟨hline, hcol⟩
  · rw [if_neg (Nat.ne_of_lt hline), padded_append_lt_iff hline]
  · rw [if_pos hline, hline, append_left_lt_iff, List.cons_lt_cons_self, padded_append_lt_iff hcol]

/-- The id on line 100000 comes before those on the lines from 10000 on. -/
example : ¬ Span.ReadsBefore ⟨99999, 1⟩ ⟨100000, 1⟩ ∧ Span.ReadsBefore ⟨9999, 1⟩ ⟨100000, 1⟩ := by
  decide

end ReactiveScript

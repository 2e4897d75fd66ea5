import ReactiveScript.Grammar.Interpolation

/-!
# Brackets in a text

Brackets of any kind are counted character by character, whatever they stand in; this is how the
end of an interpolation is found.  A text is balanced if it never closes a bracket that it has not
opened, and leaves none open.

* `Text.depthAfter` — how many brackets are open behind a text.
* `Text.Balanced` — every bracket that a text opens is closed in it, and no other.
* `Grammar.marks` — the operators and delimiters among tokens.
* `Grammar.holeLength_append` — a balanced text at the front of an interpolation belongs to it.
-/

set_option autoImplicit false

namespace ReactiveScript

namespace Text

/-- Whether a character opens a bracket of any kind. -/
abbrev opens (c : Char) : Prop := c = '{' ∨ c = '[' ∨ c = '('

/-- Whether a character closes a bracket of any kind. -/
abbrev closes (c : Char) : Prop := c = '}' ∨ c = ']' ∨ c = ')'

/-- How many brackets are open behind a text if `d` are open in front of it; nothing if it closes
one that is not open. -/
def depthAfter : Nat → List Char → Option Nat
  | d, [] => some d
  | d, c :: cs =>
    if opens c then depthAfter (d + 1) cs
    else if closes c then if d = 0 then none else depthAfter (d - 1) cs
    else depthAfter d cs

/-- Every bracket that a text opens is closed in it, and it closes no other. -/
def Balanced (cs : List Char) : Prop := depthAfter 0 cs = some 0

instance (cs : List Char) : Decidable (Balanced cs) :=
  inferInstanceAs (Decidable (depthAfter 0 cs = some 0))

@[simp]
theorem depthAfter_nil (d : Nat) : depthAfter d [] = some d := rfl

theorem depthAfter_cons_of_opens {c : Char} (h : opens c) (d : Nat) (cs : List Char) :
    depthAfter d (c :: cs) = depthAfter (d + 1) cs := by
  rw [depthAfter, if_pos h]

theorem not_opens_of_closes {c : Char} (h : closes c) : ¬opens c := by
  rcases h with rfl | rfl | rfl <;> decide

theorem depthAfter_zero_of_closes {c : Char} (h : closes c) (cs : List Char) :
    depthAfter 0 (c :: cs) = none := by
  rw [depthAfter, if_neg (not_opens_of_closes h), if_pos h, if_pos rfl]

theorem depthAfter_succ_of_closes {c : Char} (h : closes c) (d : Nat) (cs : List Char) :
    depthAfter (d + 1) (c :: cs) = depthAfter d cs := by
  rw [depthAfter, if_neg (not_opens_of_closes h), if_pos h, if_neg (Nat.succ_ne_zero d)]
  rfl

theorem depthAfter_cons_of_plain {c : Char} (ho : ¬opens c) (hc : ¬closes c) (d : Nat)
    (cs : List Char) : depthAfter d (c :: cs) = depthAfter d cs := by
  rw [depthAfter, if_neg ho, if_neg hc]

/-- A character opens a bracket, or closes one, or does neither. -/
theorem bracket_cases (c : Char) : opens c ∨ closes c ∨ ¬opens c ∧ ¬closes c := by
  by_cases ho : opens c
  · exact Or.inl ho
  · by_cases hc : closes c
    · exact Or.inr (Or.inl hc)
    · exact Or.inr (Or.inr ⟨ho, hc⟩)

theorem depthAfter_append (d : Nat) (cs cs' : List Char) :
    depthAfter d (cs ++ cs') = (depthAfter d cs).bind (depthAfter · cs') := by
  induction cs generalizing d with
  | nil => rfl
  | cons c cs ih =>
    rw [List.cons_append]
    rcases bracket_cases c with ho | hc | ⟨ho, hc⟩
    · rw [depthAfter_cons_of_opens ho, depthAfter_cons_of_opens ho, ih]
    · cases d with
      | zero => rw [depthAfter_zero_of_closes hc, depthAfter_zero_of_closes hc]; rfl
      | succ d => rw [depthAfter_succ_of_closes hc, depthAfter_succ_of_closes hc, ih]
    · rw [depthAfter_cons_of_plain ho hc, depthAfter_cons_of_plain ho hc, ih]

/-- More brackets that are open in front of a text are open behind it. -/
theorem depthAfter_add {d d' : Nat} {cs : List Char} (h : depthAfter d cs = some d') (k : Nat) :
    depthAfter (k + d) cs = some (k + d') := by
  induction cs generalizing d with
  | nil =>
    cases h
    rfl
  | cons c cs ih =>
    rcases bracket_cases c with ho | hc | ⟨ho, hc⟩
    · rw [depthAfter_cons_of_opens ho] at h ⊢
      exact ih h
    · cases d with
      | zero =>
        rw [depthAfter_zero_of_closes hc] at h
        cases h
      | succ d =>
        rw [depthAfter_succ_of_closes hc] at h
        rw [← Nat.add_assoc, depthAfter_succ_of_closes hc]
        exact ih h
    · rw [depthAfter_cons_of_plain ho hc] at h ⊢
      exact ih h

/-- A balanced text leaves open what was open. -/
theorem Balanced.depthAfter {cs : List Char} (h : Balanced cs) (d : Nat) :
    depthAfter d cs = some d := depthAfter_add h d

/-- A text without brackets is balanced. -/
theorem balanced_of_plain {cs : List Char} (h : ∀ c ∈ cs, ¬opens c ∧ ¬closes c) : Balanced cs := by
  induction cs with
  | nil => rfl
  | cons c cs ih =>
    obtain ⟨hc, hcs⟩ := List.forall_mem_cons.1 h
    rw [Balanced, depthAfter_cons_of_plain hc.1 hc.2]
    exact ih hcs

end Text

/-- The text of a token if it is an operator or a delimiter. -/
def Token.marks : Token → List Char
  | .mark m => m.text.toList
  | _ => []

namespace Grammar

open Text

/-- The text of the operators and delimiters among tokens. -/
def marks (ts : List Located) : List Char := ts.flatMap fun t => t.token.marks

/-! ## The end of an interpolation -/

theorem holeLength_cons_of_opens {c : Char} (h : opens c) (d : Nat) (cs : List Char) :
    holeLength d (c :: cs) = (holeLength (d + 1) cs).map (· + 1) := by
  rw [holeLength, if_pos h]

theorem holeLength_one_of_closes {c : Char} (h : closes c) (cs : List Char) :
    holeLength 1 (c :: cs) = some 0 := by
  rw [holeLength, if_neg (not_opens_of_closes h), if_pos h, if_pos (Nat.le_refl 1)]

theorem holeLength_succ_of_closes {c : Char} (h : closes c) (d : Nat) (cs : List Char) :
    holeLength (d + 2) (c :: cs) = (holeLength (d + 1) cs).map (· + 1) := by
  rw [holeLength, if_neg (not_opens_of_closes h), if_pos h, if_neg (by omega)]
  rfl

theorem holeLength_cons_of_plain {c : Char} (ho : ¬opens c) (hc : ¬closes c) (d : Nat)
    (cs : List Char) : holeLength d (c :: cs) = (holeLength d cs).map (· + 1) := by
  rw [holeLength, if_neg ho, if_neg hc]

/-- The text in front of the brace that closes an interpolation is shorter than what follows the
brace that opens it. -/
theorem holeLength_lt {d n : Nat} {cs : List Char} (h : holeLength d cs = some n) :
    n < cs.length := by
  induction cs generalizing d n with
  | nil => cases h
  | cons c cs ih =>
    have hmap : ∀ {d'}, (holeLength d' cs).map (· + 1) = some n → n < (c :: cs).length := by
      intro d' h
      obtain ⟨k, hk, rfl⟩ := Option.map_eq_some_iff.1 h
      exact Nat.succ_lt_succ (ih hk)
    rw [holeLength] at h
    split at h
    · exact hmap h
    · split at h
      · split at h
        · cases h
          exact Nat.zero_lt_succ _
        · exact hmap h
      · exact hmap h

/-- A text that closes no bracket but its own belongs to an interpolation that it stands at the
front of. -/
theorem holeLength_append {d d' : Nat} {cs : List Char} (h : depthAfter d cs = some d')
    (rest : List Char) :
    holeLength (d + 1) (cs ++ rest) = (holeLength (d' + 1) rest).map (· + cs.length) := by
  induction cs generalizing d with
  | nil =>
    cases h
    exact Option.map_id'.symm
  | cons c cs ih =>
    have hmap : ((holeLength (d' + 1) rest).map (· + cs.length)).map (· + 1) =
        (holeLength (d' + 1) rest).map (· + (c :: cs).length) := by
      rw [Option.map_map]
      rfl
    rw [List.cons_append]
    rcases bracket_cases c with ho | hc | ⟨ho, hc⟩
    · rw [depthAfter_cons_of_opens ho] at h
      rw [holeLength_cons_of_opens ho, ih h, hmap]
    · cases d with
      | zero =>
        rw [depthAfter_zero_of_closes hc] at h
        cases h
      | succ d =>
        rw [depthAfter_succ_of_closes hc] at h
        rw [holeLength_succ_of_closes hc, ih h, hmap]
    · rw [depthAfter_cons_of_plain ho hc] at h
      rw [holeLength_cons_of_plain ho hc, ih h, hmap]

/-- A text that closes a bracket it has not opened ends the interpolation that it stands in. -/
theorem exists_holeLength {d : Nat} {cs : List Char} (h : depthAfter d cs = none)
    (rest : List Char) : ∃ n < cs.length, holeLength (d + 1) (cs ++ rest) = some n := by
  induction cs generalizing d with
  | nil => cases h
  | cons c cs ih =>
    have hstep : ∀ {d'}, (∃ n < cs.length, holeLength d' (cs ++ rest) = some n) →
        ∃ n < (c :: cs).length, (holeLength d' (cs ++ rest)).map (· + 1) = some n := by
      rintro d' ⟨n, hlt, hn⟩
      exact ⟨n + 1, Nat.succ_lt_succ hlt, by rw [hn]; rfl⟩
    rw [List.cons_append]
    rcases bracket_cases c with ho | hc | ⟨ho, hc⟩
    · rw [depthAfter_cons_of_opens ho] at h
      rw [holeLength_cons_of_opens ho]
      exact hstep (ih h)
    · cases d with
      | zero => exact ⟨0, Nat.zero_lt_succ _, holeLength_one_of_closes hc _⟩
      | succ d =>
        rw [depthAfter_succ_of_closes hc] at h
        rw [holeLength_succ_of_closes hc]
        exact hstep (ih h)
    · rw [depthAfter_cons_of_plain ho hc] at h
      rw [holeLength_cons_of_plain ho hc]
      exact hstep (ih h)

end Grammar

end ReactiveScript

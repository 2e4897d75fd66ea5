import ReactiveScript.Proofs.Token.Place

/-!
# What layout makes of lexemes

Layout takes one lexeme after the other.  What it can make of one is little: nothing, the end of a
line, or a token with the blocks in front of it that its line opens or closes.

* `Token.bracketsBehind` — how many brackets are open behind some tokens.
* `Token.Layout.wider`, `Token.Layout.remaining` — the blocks that a line closes, and the others.
* `Token.Layout.Takes` — everything that layout can make of one lexeme.
* `Token.Layout.Reaches` — what it makes of a list of lexemes.
-/

set_option autoImplicit false

namespace ReactiveScript

namespace Token

/-! ## Brackets -/

/-- How many brackets are open behind a token if `d` are open in front of it.  One that closes none
changes nothing. -/
def nesting (d : Nat) : Token → Nat
  | .mark m => if m.isOpening then d + 1 else if m.isClosing then d - 1 else d
  | _ => d

/-- How many brackets are open behind some tokens if `d` are open in front of them. -/
def bracketsBehind (d : Nat) (ts : List Located) : Nat := ts.foldl (fun d t => t.token.nesting d) d

theorem bracketsBehind_append (d : Nat) (ts us : List Located) :
    bracketsBehind d (ts ++ us) = bracketsBehind (bracketsBehind d ts) us := List.foldl_append

namespace Layout

/-! ## One lexeme -/

theorem track_eq (s : Layout) (t : Token) : s.track t = { s with depth := t.nesting s.depth } := by
  cases t with
  | mark m =>
    rw [track, nesting]
    split
    · rfl
    · split <;> rfl
  | _ => rfl

/-- The levels that are wider than a line. -/
def wider (width : Nat) (levels : List Nat) : List Nat := levels.takeWhile (width < ·)

/-- The levels that remain when those are closed that are wider than a line. -/
def remaining (width : Nat) (levels : List Nat) : List Nat := levels.dropWhile (width < ·)

variable {width top : Nat} {levels rest : List Nat}

theorem wider_of_lt (h : width < top) : wider width (top :: rest) = top :: wider width rest :=
  List.takeWhile_cons_of_pos (decide_eq_true h)

theorem wider_of_le (h : top ≤ width) : wider width (top :: rest) = [] :=
  List.takeWhile_cons_of_neg (by simpa using h)

theorem remaining_of_lt (h : width < top) : remaining width (top :: rest) = remaining width rest :=
  List.dropWhile_cons_of_pos (decide_eq_true h)

theorem remaining_of_le (h : top ≤ width) : remaining width (top :: rest) = top :: rest :=
  List.dropWhile_cons_of_neg (by simpa using h)

theorem length_levels (width : Nat) (levels : List Nat) :
    levels.length = (remaining width levels).length + (wider width levels).length := by
  rw [Nat.add_comm, ← List.length_append, wider, remaining, List.takeWhile_append_dropWhile]

theorem dedents_eq (width : Nat) (span : Span) (levels : List Nat) :
    dedents width span levels =
      (List.replicate (wider width levels).length ⟨.dedent, span⟩,
        if width = (remaining width levels).headD 0 then some (remaining width levels)
        else none) := by
  induction levels with
  | nil => rfl
  | cons top rest ih =>
    rw [dedents]
    rcases Nat.lt_or_ge width top with hlt | hle
    · rw [if_pos hlt, ih, wider_of_lt hlt, remaining_of_lt hlt]
      rfl
    · rw [if_neg (Nat.not_lt.2 hle), wider_of_le hle, remaining_of_le hle]
      rfl

/-- What layout makes of a lexeme: the tokens that it contributes, and the layout behind it. -/
inductive Takes (s : Layout) (x : Scanned) : List Located → Layout → Prop
  /-- A comment disappears. -/
  | comment : x.lexeme = .comment → Takes s x [] s
  /-- Lines do not count inside brackets. -/
  | inside : x.lexeme = .line → 0 < s.depth → Takes s x [] s
  /-- Blank lines do not count. -/
  | blank : x.lexeme = .line → s.depth = 0 → s.atStart = true → Takes s x [] s
  /-- A logical line ends. -/
  | newline : x.lexeme = .line → s.depth = 0 → s.atStart = false →
      Takes s x [⟨.newline, x.span⟩] { s with atStart := true }
  /-- A logical line goes on. -/
  | token (t : Token) : x.lexeme = .token t → s.atStart = false →
      Takes s x [⟨t, x.span⟩] { s with depth := t.nesting s.depth }
  /-- A logical line opens a block. -/
  | indent (t : Token) : x.lexeme = .token t → s.atStart = true → s.level < x.width →
      Takes s x [⟨.indent, x.span⟩, ⟨t, x.span⟩] ⟨x.width :: s.levels, t.nesting s.depth, false⟩
  /-- A logical line closes the blocks that are wider, perhaps none. -/
  | dedent (t : Token) : x.lexeme = .token t → s.atStart = true → x.width ≤ s.level →
      x.width = (remaining x.width s.levels).headD 0 →
      Takes s x (List.replicate (wider x.width s.levels).length ⟨.dedent, x.span⟩ ++ [⟨t, x.span⟩])
        ⟨remaining x.width s.levels, t.nesting s.depth, false⟩

theorem enter_of_lt {s : Layout} {width : Nat} (h : s.level < width) (span : Span) :
    s.enter width span =
      .ok ([⟨.indent, span⟩], { s with levels := width :: s.levels, atStart := false }) := by
  rw [enter, if_pos h]

theorem enter_of_eq {s : Layout} {width : Nat} (h : width ≤ s.level)
    (hwidth : width = (remaining width s.levels).headD 0) (span : Span) :
    s.enter width span =
      .ok (List.replicate (wider width s.levels).length ⟨.dedent, span⟩,
        { s with levels := remaining width s.levels, atStart := false }) := by
  rw [enter, if_neg (Nat.not_lt.2 h), dedents_eq, if_pos hwidth]

theorem enter_of_ne {s : Layout} {width : Nat} (h : width ≤ s.level)
    (hwidth : width ≠ (remaining width s.levels).headD 0) (span : Span) :
    s.enter width span = .error ⟨.unmatchedIndentation, span⟩ := by
  rw [enter, if_neg (Nat.not_lt.2 h), dedents_eq, if_neg hwidth]

theorem step_of_inside {s : Layout} {x : Scanned} {t : Token} (hx : x.lexeme = .token t)
    (hs : s.atStart = false) :
    s.step x = .ok ([⟨t, x.span⟩], { s with depth := t.nesting s.depth }) := by
  rw [step, hx, ← track_eq, hs]
  rfl

theorem step_of_atStart {s : Layout} {x : Scanned} {t : Token} (hx : x.lexeme = .token t)
    (hs : s.atStart = true) :
    s.step x = (s.enter x.width x.span).bind fun r =>
      .ok (r.1 ++ [⟨t, x.span⟩], { r.2 with depth := t.nesting r.2.depth }) := by
  rw [step, hx]
  simp only [hs, if_true, ← track_eq]
  rfl

/-- **What layout can make of a lexeme.** -/
theorem takes_of_step {s s' : Layout} {x : Scanned} {ts : List Located}
    (h : s.step x = .ok (ts, s')) : s.Takes x ts s' := by
  cases hx : x.lexeme with
  | stray slice =>
    rw [step, hx] at h
    cases h
  | comment =>
    rw [step, hx] at h
    cases h
    exact .comment hx
  | line =>
    rw [step, hx] at h
    dsimp only at h
    split at h
    · rename_i hdepth
      cases hs : s.atStart with
      | true =>
        rw [hs, if_pos rfl] at h
        cases h
        have hsame : ({ s with atStart := true } : Layout) = s := by rw [← hs]
        rw [hsame]
        exact .blank hx hdepth hs
      | false =>
        rw [hs, if_neg Bool.false_ne_true] at h
        cases h
        exact .newline hx hdepth hs
    · rename_i hdepth
      cases h
      exact .inside hx (Nat.pos_of_ne_zero hdepth)
  | token t =>
    cases hs : s.atStart with
    | false =>
      rw [step_of_inside hx hs] at h
      cases h
      exact .token t hx hs
    | true =>
      rw [step_of_atStart hx hs] at h
      rcases Nat.lt_or_ge s.level x.width with hlt | hle
      · rw [enter_of_lt hlt] at h
        cases h
        exact .indent t hx hs hlt
      · by_cases hwidth : x.width = (remaining x.width s.levels).headD 0
        · rw [enter_of_eq hle hwidth] at h
          cases h
          exact .dedent t hx hs hle hwidth
        · rw [enter_of_ne hle hwidth] at h
          cases h

/-! ## Many lexemes -/

/-- What layout makes of a list of lexemes. -/
inductive Reaches : Layout → List Scanned → List Located → Layout → Prop
  /-- Nothing comes of nothing. -/
  | nil (s : Layout) : Reaches s [] [] s
  /-- The tokens of the first lexeme come first. -/
  | cons {s s' s'' : Layout} {x : Scanned} {xs : List Scanned} {ts us : List Located} :
      s.step x = .ok (ts, s') → Reaches s' xs us s'' → Reaches s (x :: xs) (ts ++ us) s''

/-- A run that ends well takes all lexemes, and adds the tokens at the end. -/
theorem reaches_of_run {last : Span} {s : Layout} {xs : List Scanned} {ts : List Located}
    (h : run last s xs = .ok ts) :
    ∃ body s', Reaches s xs body s' ∧ ts = body ++ s'.close last := by
  induction xs generalizing s ts with
  | nil =>
    cases h
    exact ⟨[], s, .nil s, rfl⟩
  | cons x xs ih =>
    obtain ⟨⟨tokens, s'⟩, hstep, h⟩ := exists_of_bind h
    obtain ⟨rest, hrest, h⟩ := exists_of_bind h
    cases h
    obtain ⟨body, s'', hreaches, rfl⟩ := ih hrest
    exact ⟨tokens ++ body, s'', .cons hstep hreaches, (List.append_assoc ..).symm⟩

end Layout

end Token

end ReactiveScript

import ReactiveScript.Proofs.Token.Stream

/-!
# Lines that fit no block

The blocks that are open behind a part of a text are a matter of the logical lines in it: a block is
open as long as no line comes that is less wide.  A line is refused if it is less wide than the one
in front of it and as wide as no open block, and the first such line is the one that is reported.

* `Token.startsLine` — the next token starts a logical line.
* `Token.lineWidths` — the widths of the logical lines of a text.
* `Token.IsOpen` — a block of a certain width is open.
* `Token.Unmatched` — a line fits no open block.
* `Token.Layout.After` — what layout keeps track of, in terms of the lexemes so far.
-/

set_option autoImplicit false

namespace ReactiveScript

namespace Token

/-! ## Logical lines -/

/-- Whether a token behind some lexemes starts a logical line: no bracket is open, and there is no
token in front of it on its line. -/
def startsLine (before : List Scanned) : Bool :=
  bracketsBehind 0 (ofLine before) = 0 &&
    (before.reverse.takeWhile (·.lexeme ≠ .line)).all (·.token? = none)

/-- The widths of the logical lines that start in `xs` behind `before`. -/
def lineWidthsBehind (before : List Scanned) : List Scanned → List Nat
  | [] => []
  | x :: xs =>
    if x.token? ≠ none ∧ startsLine before then x.width :: lineWidthsBehind (before ++ [x]) xs
    else lineWidthsBehind (before ++ [x]) xs

/-- The widths of the logical lines of a text. -/
def lineWidths (xs : List Scanned) : List Nat := lineWidthsBehind [] xs

/-- Whether behind lines of certain widths a block is open that is as wide as `width`: one line is
that wide, and none behind it is less wide.  The outermost block is always open. -/
def IsOpen (widths : List Nat) (width : Nat) : Prop :=
  width = 0 ∨ ∃ front rest, widths = front ++ width :: rest ∧ ∀ w ∈ rest, width ≤ w

/-- Behind some lexemes a logical line starts that is less wide than the line in front of it, and as
wide as no open block. -/
structure Unmatched (before : List Scanned) (x : Scanned) : Prop where
  /-- It is a token. -/
  isToken : x.token? ≠ none
  /-- It starts a logical line. -/
  startsLine : startsLine before = true
  /-- The line is less wide than the one in front of it. -/
  width_lt : x.width < (lineWidths before).getLastD 0
  /-- No block of its width is open. -/
  not_isOpen : ¬IsOpen (lineWidths before) x.width

theorem ofLine_concat (xs : List Scanned) (x : Scanned) :
    ofLine (xs ++ [x]) = ofLine xs ++ ofLine [x] := List.filterMap_append

/-- A line end starts a line outside brackets. -/
theorem startsLine_line {before : List Scanned} {x : Scanned} (hx : x.lexeme = .line) :
    startsLine (before ++ [x]) = decide (bracketsBehind 0 (ofLine before) = 0) := by
  have hplain : ofLine [x] = [] := ofLine_eq_nil fun t ht => by rw [hx] at ht; cases ht
  rw [startsLine, ofLine_concat, hplain, List.append_nil, List.reverse_append,
    List.reverse_singleton, List.singleton_append, List.takeWhile_cons_of_neg (by simp [hx])]
  exact Bool.and_true _

theorem startsLine_comment {before : List Scanned} {x : Scanned} (hx : x.lexeme = .comment) :
    startsLine (before ++ [x]) = startsLine before := by
  have hplain : ofLine [x] = [] := ofLine_eq_nil fun t ht => by rw [hx] at ht; cases ht
  have htoken : x.token? = none := by rw [Scanned.token?, hx]
  rw [startsLine, ofLine_concat, hplain, List.append_nil, List.reverse_append,
    List.reverse_singleton, List.singleton_append, List.takeWhile_cons_of_pos (by simp [hx]),
    List.all_cons, htoken]
  rfl

theorem token?_ne_none {x : Scanned} {t : Token} (hx : x.lexeme = .token t) : x.token? ≠ none := by
  rw [Scanned.token?, hx]
  exact Option.some_ne_none _

theorem startsLine_token {before : List Scanned} {x : Scanned} {t : Token}
    (hx : x.lexeme = .token t) : startsLine (before ++ [x]) = false := by
  rw [startsLine, List.reverse_append, List.reverse_singleton, List.singleton_append,
    List.takeWhile_cons_of_pos (by simp [hx]), List.all_cons, decide_eq_false (token?_ne_none hx),
    Bool.false_and, Bool.and_false]

/-- A lexeme adds the width of its line if it starts one. -/
theorem lineWidths_concat (xs : List Scanned) (x : Scanned) :
    lineWidths (xs ++ [x]) =
      lineWidths xs ++ if x.token? ≠ none ∧ startsLine xs then [x.width] else [] := by
  have hbehind : ∀ before ys, lineWidthsBehind before (ys ++ [x]) = lineWidthsBehind before ys ++
      if x.token? ≠ none ∧ startsLine (before ++ ys) then [x.width] else [] := by
    intro before ys
    induction ys generalizing before with
    | nil =>
      rw [List.append_nil, List.nil_append, lineWidthsBehind]
      rfl
    | cons y ys ih =>
      rw [List.cons_append, lineWidthsBehind, lineWidthsBehind, ih, List.append_assoc,
        List.singleton_append]
      split
      · rfl
      · rfl
  exact hbehind [] xs

/-! ## Open blocks -/

theorem isOpen_nil (width : Nat) : IsOpen [] width ↔ width = 0 := by
  refine or_iff_left ?_
  rintro ⟨front, rest, heq, -⟩
  cases front <;> cases heq

/-- A line opens a block or goes on with one, and closes all that are wider. -/
theorem isOpen_concat (widths : List Nat) (last width : Nat) :
    IsOpen (widths ++ [last]) width ↔
      width = 0 ∨ width = last ∨ IsOpen widths width ∧ width ≤ last := by
  constructor
  · rintro (hzero | ⟨front, rest, heq, hle⟩)
    · exact Or.inl hzero
    · rcases List.eq_nil_or_concat rest with rfl | ⟨rest, w, rfl⟩
      · obtain ⟨-, hsame⟩ := List.append_inj' heq rfl
        exact Or.inr (Or.inl (List.cons.inj hsame).1.symm)
      · rw [List.concat_eq_append, ← List.cons_append, ← List.append_assoc] at heq
        obtain ⟨hfront, hsame⟩ := List.append_inj' heq rfl
        obtain ⟨rfl, -⟩ := List.cons.inj hsame
        rw [List.concat_eq_append] at hle
        obtain ⟨hrest, hlast⟩ := List.forall_mem_append.1 hle
        exact Or.inr
          (Or.inr ⟨Or.inr ⟨front, rest, hfront, hrest⟩, hlast _ (List.mem_singleton_self _)⟩)
  · rintro (hzero | rfl | ⟨hzero | ⟨front, rest, rfl, hrest⟩, hle⟩)
    · exact Or.inl hzero
    · exact Or.inr ⟨widths, [], rfl, List.forall_mem_nil _⟩
    · exact Or.inl hzero
    · exact Or.inr ⟨front, rest ++ [last], by rw [List.append_assoc, List.cons_append],
        List.forall_mem_append.2 ⟨hrest, List.forall_mem_singleton.2 hle⟩⟩

namespace Layout

/-- Levels, the innermost and widest first. -/
structure Nested (levels : List Nat) : Prop where
  /-- Every level is wider than the next one. -/
  pairwise : levels.Pairwise (· > ·)
  /-- The outermost level is no margin. -/
  pos : ∀ w ∈ levels, 0 < w

variable {levels : List Nat} {width : Nat}

theorem Nested.tail {top : Nat} (h : Nested (top :: levels)) : Nested levels :=
  ⟨(List.pairwise_cons.1 h.pairwise).2, (List.forall_mem_cons.1 h.pos).2⟩

theorem Nested.le_head (h : Nested levels) {w : Nat} (hw : w ∈ levels) : w ≤ levels.headD 0 := by
  cases levels with
  | nil => cases hw
  | cons top rest =>
    rcases List.mem_cons.1 hw with rfl | hw
    · exact Nat.le_refl _
    · exact ((List.pairwise_cons.1 h.pairwise).1 w hw).le

/-- The levels that remain are those that are not wider. -/
theorem Nested.mem_remaining (h : Nested levels) {w : Nat} :
    w ∈ remaining width levels ↔ w ∈ levels ∧ w ≤ width := by
  induction levels with
  | nil => simp [remaining]
  | cons top rest ih =>
    have hbelow := (List.pairwise_cons.1 h.pairwise).1
    rcases Nat.lt_or_ge width top with hlt | hle
    · rw [remaining_of_lt hlt, ih h.tail, List.mem_cons]
      refine and_congr_left fun hw => (or_iff_right ?_).symm
      omega
    · rw [remaining_of_le hle]
      refine (and_iff_left_of_imp fun hw => ?_).symm
      exact (h.le_head hw).trans hle

/-- What remains is still nested. -/
theorem Nested.remaining (h : Nested levels) : Nested (remaining width levels) :=
  ⟨h.pairwise.sublist (List.dropWhile_sublist _), fun w hw => h.pos w (h.mem_remaining.1 hw).1⟩

/-- A line fits the innermost level that remains if it fits any. -/
theorem Nested.headD_remaining (h : Nested levels) :
    width = (Layout.remaining width levels).headD 0 ↔ width = 0 ∨ width ∈ levels := by
  have hmem : ∀ {w}, w ∈ Layout.remaining width levels ↔ w ∈ levels ∧ w ≤ width :=
    h.mem_remaining
  have hpos : Nested (Layout.remaining width levels) := h.remaining
  cases hremaining : Layout.remaining width levels with
  | nil =>
    rw [hremaining] at hmem
    have hnot : width ∉ levels := fun hw => List.not_mem_nil (hmem.2 ⟨hw, Nat.le_refl _⟩)
    exact (or_iff_left hnot).symm
  | cons top rest =>
    rw [hremaining] at hmem hpos
    have htop : top ∈ levels ∧ top ≤ width := hmem.1 (List.mem_cons_self ..)
    show width = top ↔ _
    constructor
    · rintro rfl
      exact Or.inr htop.1
    · have htoppos := hpos.pos top (List.mem_cons_self ..)
      rintro (hzero | hw)
      · omega
      · have := hpos.le_head (hmem.2 ⟨hw, Nat.le_refl _⟩)
        exact Nat.le_antisymm this htop.2

/-! ## What layout keeps track of -/

/-- A layout is what the lexemes so far make of it. -/
structure After (before : List Scanned) (s : Layout) : Prop where
  /-- It counts the open brackets. -/
  depth_eq : s.depth = bracketsBehind 0 (ofLine before)
  /-- It knows where a logical line starts. -/
  atStart_eq : s.atStart = startsLine before
  /-- The levels are nested. -/
  nested : Nested s.levels
  /-- They are the widths of the open blocks. -/
  mem_levels : ∀ w, w ∈ s.levels ↔ 0 < w ∧ IsOpen (lineWidths before) w
  /-- The innermost is as wide as the last line. -/
  level_eq : s.level = (lineWidths before).getLastD 0

theorem after_start : After [] start where
  depth_eq := rfl
  atStart_eq := rfl
  nested := ⟨List.Pairwise.nil, List.forall_mem_nil _⟩
  mem_levels w := by
    rw [lineWidths, lineWidthsBehind, isOpen_nil]
    exact iff_of_false List.not_mem_nil fun h => h.1.ne' h.2
  level_eq := rfl

variable {before xs : List Scanned} {s s' : Layout} {x : Scanned} {t : Token} {ts : List Located}

theorem After.atStart_of_lt (h : After before s) (hdepth : 0 < s.depth) : s.atStart = false := by
  rw [h.atStart_eq, startsLine, decide_eq_false (h.depth_eq ▸ hdepth.ne'), Bool.false_and]

/-- What is no token changes at most whether a line starts. -/
theorem After.plain (h : After before s) (hx : x.token? = none) {atStart : Bool}
    (hstart : atStart = startsLine (before ++ [x])) :
    After (before ++ [x]) { s with atStart } := by
  have hofLine : ofLine (before ++ [x]) = ofLine before := by
    rw [ofLine_concat, ofLine, ofLine, List.filterMap_cons_none hx, List.filterMap_nil,
      List.append_nil]
  have hwidths : lineWidths (before ++ [x]) = lineWidths before := by
    rw [lineWidths_concat, if_neg fun hline => hline.1 hx, List.append_nil]
  exact ⟨by rw [hofLine]; exact h.depth_eq, hstart, h.nested, by rw [hwidths]; exact h.mem_levels,
    by rw [hwidths]; exact h.level_eq⟩

theorem After.depth_token (h : After before s) (hx : x.lexeme = .token t) :
    t.nesting s.depth = bracketsBehind 0 (ofLine (before ++ [x])) := by
  rw [ofLine_concat, ofLine_token hx, bracketsBehind_append, h.depth_eq]
  rfl

/-- A token inside a line changes no level. -/
theorem After.inside (h : After before s) (hx : x.lexeme = .token t) (hstart : s.atStart = false) :
    After (before ++ [x]) { s with depth := t.nesting s.depth } := by
  have hwidths : lineWidths (before ++ [x]) = lineWidths before := by
    have hnot : startsLine before ≠ true := by rw [← h.atStart_eq, hstart]; exact Bool.false_ne_true
    rw [lineWidths_concat, if_neg fun hline => hnot hline.2, List.append_nil]
  exact ⟨h.depth_token hx, hstart.trans (startsLine_token hx).symm, h.nested,
    by rw [hwidths]; exact h.mem_levels, by rw [hwidths]; exact h.level_eq⟩

/-- The first token of a line makes its level the innermost one. -/
theorem After.line (h : After before s) (hx : x.lexeme = .token t) (hstart : s.atStart = true)
    {levels : List Nat} (hnested : Nested levels)
    (hmem : ∀ w, w ∈ levels ↔ 0 < w ∧ w = x.width ∨ w ∈ s.levels ∧ w ≤ x.width)
    (hlevel : levels.headD 0 = x.width) :
    After (before ++ [x]) ⟨levels, t.nesting s.depth, false⟩ := by
  have hwidths : lineWidths (before ++ [x]) = lineWidths before ++ [x.width] := by
    rw [lineWidths_concat, if_pos ⟨token?_ne_none hx, h.atStart_eq ▸ hstart⟩]
  refine ⟨h.depth_token hx, (startsLine_token hx).symm, hnested, fun w => ?_, ?_⟩
  · rw [hwidths, isOpen_concat, hmem, h.mem_levels]
    constructor
    · rintro (⟨hpos, hw⟩ | ⟨⟨hpos, hopen⟩, hle⟩)
      · exact ⟨hpos, Or.inr (Or.inl hw)⟩
      · exact ⟨hpos, Or.inr (Or.inr ⟨hopen, hle⟩)⟩
    · rintro ⟨hpos, hzero | hw | ⟨hopen, hle⟩⟩
      · exact absurd hzero hpos.ne'
      · exact Or.inl ⟨hpos, hw⟩
      · exact Or.inr ⟨⟨hpos, hopen⟩, hle⟩
  · rw [hwidths, List.getLastD_concat]
    exact hlevel

/-- **What layout keeps track of stays what the lexemes make of it.** -/
theorem After.takes (h : After before s) (htakes : s.Takes x ts s') : After (before ++ [x]) s' := by
  have hnone : (∀ t, x.lexeme ≠ .token t) → x.token? = none := by
    intro hx
    rw [Scanned.token?.eq_def]
    split
    · exact absurd ‹_› (hx _)
    · rfl
  cases htakes with
  | comment hx =>
    refine h.plain (hnone fun t ht => by rw [hx] at ht; cases ht) ?_
    rw [startsLine_comment hx, h.atStart_eq]
  | inside hx hdepth =>
    refine h.plain (hnone fun t ht => by rw [hx] at ht; cases ht) ?_
    rw [startsLine_line hx, h.atStart_of_lt hdepth, decide_eq_false (h.depth_eq ▸ hdepth.ne')]
  | blank hx hdepth hstart =>
    refine h.plain (hnone fun t ht => by rw [hx] at ht; cases ht) ?_
    rw [startsLine_line hx, hstart, decide_eq_true (h.depth_eq ▸ hdepth)]
  | newline hx hdepth hstart =>
    refine h.plain (hnone fun t ht => by rw [hx] at ht; cases ht) ?_
    rw [startsLine_line hx, decide_eq_true (h.depth_eq ▸ hdepth)]
  | token t hx hstart => exact h.inside hx hstart
  | indent t hx hstart hwidth =>
    have habove : ∀ w ∈ s.levels, w < x.width := fun w hw =>
      Nat.lt_of_le_of_lt (h.nested.le_head hw) hwidth
    refine h.line hx hstart ⟨List.pairwise_cons.2 ⟨habove, h.nested.pairwise⟩,
      List.forall_mem_cons.2 ⟨Nat.zero_lt_of_lt hwidth, h.nested.pos⟩⟩ (fun w => ?_) rfl
    rw [List.mem_cons]
    constructor
    · rintro (rfl | hw)
      · exact Or.inl ⟨Nat.zero_lt_of_lt hwidth, rfl⟩
      · exact Or.inr ⟨hw, (habove w hw).le⟩
    · rintro (⟨-, hw⟩ | ⟨hw, -⟩)
      · exact Or.inl hw
      · exact Or.inr hw
  | dedent t hx hstart hle hwidth =>
    refine h.line hx hstart h.nested.remaining (fun w => ?_) hwidth.symm
    rw [h.nested.mem_remaining]
    refine (or_iff_right_of_imp ?_).symm
    rintro ⟨hpos, rfl⟩
    exact ⟨(h.nested.headD_remaining.1 hwidth).resolve_left hpos.ne', Nat.le_refl _⟩

theorem After.reaches (h : After before s) (hreaches : Reaches s xs ts s') :
    After (before ++ xs) s' := by
  induction hreaches generalizing before with
  | nil s => rwa [List.append_nil]
  | cons hstep hrest ih =>
    rw [List.append_cons]
    exact ih (h.takes (takes_of_step hstep))

/-! ## What layout refuses -/

/-- What is refused is text that is no lexeme, or a line that fits no level. -/
theorem error_of_step {e : SyntaxError} (h : s.step x = .error e) :
    (∃ slice, x.lexeme = .stray slice ∧ e.cause = .strayText slice) ∨
      e = ⟨.unmatchedIndentation, x.span⟩ ∧ x.token? ≠ none ∧ s.atStart = true ∧
        x.width ≤ s.level ∧ x.width ≠ (remaining x.width s.levels).headD 0 := by
  cases hx : x.lexeme with
  | stray slice =>
    rw [step, hx] at h
    cases h
    exact Or.inl ⟨slice, rfl, rfl⟩
  | comment =>
    rw [step, hx] at h
    cases h
  | line =>
    rw [step, hx] at h
    dsimp only at h
    split at h <;> cases h
  | token t =>
    cases hs : s.atStart with
    | false =>
      rw [step_of_inside hx hs] at h
      cases h
    | true =>
      rw [step_of_atStart hx hs] at h
      rcases Nat.lt_or_ge s.level x.width with hlt | hle
      · rw [enter_of_lt hlt] at h
        cases h
      · by_cases hwidth : x.width = (remaining x.width s.levels).headD 0
        · rw [enter_of_eq hle hwidth] at h
          cases h
        · rw [enter_of_ne hle hwidth] at h
          cases h
          exact Or.inr ⟨rfl, token?_ne_none hx, rfl, hle, hwidth⟩

/-- A line is less wide than the one in front of it and as wide as no open block exactly if it is
not wider, and fits no level that remains. -/
theorem After.unmatched_iff (h : After before s) :
    Unmatched before x ↔ x.token? ≠ none ∧ s.atStart = true ∧ x.width ≤ s.level ∧
      x.width ≠ (remaining x.width s.levels).headD 0 := by
  have hfits : x.width = (remaining x.width s.levels).headD 0 ↔
      IsOpen (lineWidths before) x.width := by
    rw [h.nested.headD_remaining, h.mem_levels]
    constructor
    · rintro (hzero | ⟨-, hopen⟩)
      · exact Or.inl hzero
      · exact hopen
    · intro hopen
      rcases Nat.eq_zero_or_pos x.width with hzero | hpos
      · exact Or.inl hzero
      · exact Or.inr ⟨hpos, hopen⟩
  have hlevel : x.width = s.level → x.width = (remaining x.width s.levels).headD 0 := by
    intro heq
    rw [h.nested.headD_remaining, heq, level]
    cases s.levels with
    | nil => exact Or.inl rfl
    | cons top rest => exact Or.inr (List.mem_cons_self ..)
  rw [h.level_eq] at *
  constructor
  · rintro ⟨htoken, hstart, hlt, hopen⟩
    exact ⟨htoken, h.atStart_eq.trans hstart, hlt.le, fun hwidth => hopen (hfits.1 hwidth)⟩
  · rintro ⟨htoken, hstart, hle, hwidth⟩
    exact ⟨htoken, h.atStart_eq.symm.trans hstart,
      Nat.lt_of_le_of_ne hle fun heq => hwidth (hlevel heq), fun hopen => hwidth (hfits.2 hopen)⟩

/-- **A line is refused exactly if it fits no open block.** -/
theorem After.step_eq_error (h : After before s) (span : Span) :
    s.step x = .error ⟨.unmatchedIndentation, span⟩ ↔ x.span = span ∧ Unmatched before x := by
  rw [h.unmatched_iff]
  constructor
  · intro hstep
    rcases error_of_step hstep with ⟨slice, -, hcause⟩ | ⟨heq, hline⟩
    · cases hcause
    · cases heq
      exact ⟨rfl, hline⟩
  · rintro ⟨rfl, htoken, hstart, hle, hwidth⟩
    rw [Scanned.token?.eq_def] at htoken
    split at htoken
    · rename_i t hx
      rw [step_of_atStart hx hstart, enter_of_ne hle hwidth]
      rfl
    · exact absurd rfl htoken

/-- A run that fails does so at a lexeme, behind others that it takes. -/
theorem run_eq_error {last : Span} {e : SyntaxError} :
    run last s xs = .error e ↔ ∃ before x after ts s', xs = before ++ x :: after ∧
      Reaches s before ts s' ∧ s'.step x = .error e := by
  induction xs generalizing s with
  | nil =>
    refine iff_of_false (fun h => by cases h) ?_
    rintro ⟨before, x, after, ts, s', heq, -⟩
    cases before <;> cases heq
  | cons x xs ih =>
    rw [run]
    cases hstep : s.step x with
    | error e' =>
      constructor
      · intro h
        cases h
        exact ⟨[], x, xs, [], s, rfl, .nil s, hstep⟩
      · rintro ⟨before, y, after, ts, s', heq, hreaches, herror⟩
        cases hreaches with
        | nil =>
          obtain ⟨rfl, -⟩ := List.cons.inj heq
          cases hstep.symm.trans herror
          rfl
        | cons hfirst =>
          obtain ⟨rfl, -⟩ := List.cons.inj heq
          cases hstep.symm.trans hfirst
    | ok r =>
      obtain ⟨tokens, s₁⟩ := r
      have hrest : (do let rest ← run last s₁ xs; Except.ok (tokens ++ rest)) = .error e ↔
          run last s₁ xs = .error e := by
        cases run last s₁ xs with
        | error e' => exact Iff.rfl
        | ok rest => exact iff_of_false (fun h => by cases h) fun h => by cases h
      refine hrest.trans (ih.trans ⟨?_, ?_⟩)
      · rintro ⟨before, y, after, ts, s', rfl, hreaches, herror⟩
        exact ⟨x :: before, y, after, _, s', rfl, .cons hstep hreaches, herror⟩
      · rintro ⟨before, y, after, ts, s', heq, hreaches, herror⟩
        cases hreaches with
        | nil =>
          obtain ⟨rfl, -⟩ := List.cons.inj heq
          cases hstep.symm.trans herror
        | cons hfirst hreaches =>
          obtain ⟨rfl, rfl⟩ := List.cons.inj heq
          cases hstep.symm.trans hfirst
          exact ⟨_, y, after, _, s', rfl, hreaches, herror⟩

theorem Reaches.concat {s₁ : Layout} {us : List Located} (h : Reaches s xs ts s₁)
    (hstep : s₁.step x = .ok (us, s')) : Reaches s (xs ++ [x]) (ts ++ us) s' := by
  induction h with
  | nil s =>
    rw [← List.append_nil ([] ++ us)]
    exact .cons hstep (.nil s')
  | cons hfirst hrest ih =>
    rw [List.append_assoc]
    exact .cons hfirst (ih hstep)

/-- What takes many lexemes takes each of them behind those in front of it. -/
theorem Reaches.split {front rest : List Scanned} (h : Reaches s (front ++ x :: rest) ts s') :
    ∃ us s₁ r, Reaches s front us s₁ ∧ s₁.step x = .ok r := by
  induction front generalizing s ts with
  | nil =>
    cases h with
    | cons hstep => exact ⟨[], s, _, .nil s, hstep⟩
  | cons y front ih =>
    cases h with
    | cons hfirst hrest =>
      obtain ⟨us, s₁, r, hreaches, hstep⟩ := ih hrest
      exact ⟨_, s₁, r, .cons hfirst hreaches, hstep⟩

/-- Lexemes are taken exactly if they are all lexemes, and no line among them is unmatched. -/
theorem exists_reaches : (∃ ts s, Reaches start xs ts s) ↔
    (∀ x ∈ xs, ∀ slice, x.lexeme ≠ .stray slice) ∧
      ∀ front x rest, xs = front ++ x :: rest → ¬Unmatched front x := by
  constructor
  · rintro ⟨ts, s, h⟩
    refine ⟨fun x hx slice hstray => ?_, fun front x rest heq hunmatched => ?_⟩
    · obtain ⟨front, rest, rfl⟩ := List.append_of_mem hx
      obtain ⟨us, s₁, r, -, hstep⟩ := h.split
      rw [step, hstray] at hstep
      cases hstep
    · subst heq
      obtain ⟨us, s₁, r, hfront, hstep⟩ := h.split
      cases hstep.symm.trans
        (((after_start.reaches hfront).step_eq_error x.span).2 ⟨rfl, hunmatched⟩)
  · rintro ⟨hfits, hmatched⟩
    induction xs using List.reverseRecOn with
    | nil => exact ⟨[], start, .nil start⟩
    | append_singleton xs x ih =>
      obtain ⟨hxs, hx⟩ := List.forall_mem_append.1 hfits
      obtain ⟨ts, s, hreaches⟩ := ih hxs fun front y rest heq =>
        hmatched front y (rest ++ [x]) (by rw [heq, List.append_assoc, List.cons_append])
      have hafter : After xs s := after_start.reaches hreaches
      cases hstep : s.step x with
      | ok r => exact ⟨ts ++ r.1, r.2, hreaches.concat hstep⟩
      | error e =>
        rcases error_of_step hstep with ⟨slice, hstray, -⟩ | ⟨-, hline⟩
        · exact absurd hstray (hx x (List.mem_singleton_self x) slice)
        · exact absurd (hafter.unmatched_iff.2 hline) (hmatched xs x [] rfl)

end Layout

/-! ## A script -/

/-- The first line that fits no block starts at `span`, and there is no stray text in front of
it. -/
def FirstUnmatched (xs : List Scanned) (span : Span) : Prop :=
  ∃ before x after, xs = before ++ x :: after ∧ x.span = span ∧ Unmatched before x ∧
    (∀ y ∈ before, ∀ slice, y.lexeme ≠ .stray slice) ∧
      ∀ front y rest, before = front ++ y :: rest → ¬Unmatched front y

/-- **A script is refused for its indentation exactly if a line fits no block**, and then at the
first such line. -/
theorem ofSource_eq_unmatched (cs : List Char) (span : Span) :
    ofSource cs = .error ⟨.unmatchedIndentation, span⟩ ↔
      FirstUnmatched (scan .start cs).1 span := by
  rw [ofSource, Layout.run_eq_error]
  constructor
  · rintro ⟨before, x, after, ts, s, heq, hreaches, hstep⟩
    obtain ⟨hspan, hunmatched⟩ := ((Layout.after_start.reaches hreaches).step_eq_error span).1 hstep
    obtain ⟨hfits, hmatched⟩ := Layout.exists_reaches.1 ⟨ts, s, hreaches⟩
    exact ⟨before, x, after, heq, hspan, hunmatched, hfits, hmatched⟩
  · rintro ⟨before, x, after, heq, hspan, hunmatched, hfits, hmatched⟩
    obtain ⟨ts, s, hreaches⟩ := Layout.exists_reaches.2 ⟨hfits, hmatched⟩
    exact ⟨before, x, after, ts, s, heq, hreaches,
      ((Layout.after_start.reaches hreaches).step_eq_error span).2 ⟨hspan, hunmatched⟩⟩

/-- **Text becomes lines and blocks, or its indentation is refused where it has to be.**  The tokens
of a text are laid out, and a text has none because of its indentation exactly if one of its lines
fits no block, the first one of which is reported. -/
theorem ofSource_structure (cs : List Char) :
    (∀ ts, ofSource cs = .ok ts → LaidOut cs ts) ∧
      ∀ span, ofSource cs = .error ⟨.unmatchedIndentation, span⟩ ↔
        FirstUnmatched (scan .start cs).1 span :=
  ⟨fun _ => laidOut_of_ofSource, ofSource_eq_unmatched cs⟩

/-- A choice with a comment is laid out; one with a line that is less wide than its block and wider
than the margin is refused at that line. -/
theorem ofSource_structure_choice :
    (∃ ts, ofSource "if x: # y\n  z".toList = .ok ts ∧
        ts.map Located.token = [.keyword .kwIf, .name "x", .mark .colon, .newline, .indent,
          .name "z", .newline, .dedent, .finish] ∧ LaidOut "if x: # y\n  z".toList ts) ∧
      ofSource "if x:\n  y\n z".toList = .error ⟨.unmatchedIndentation, ⟨3, 2⟩⟩ ∧
        FirstUnmatched (scan .start "if x:\n  y\n z".toList).1 ⟨3, 2⟩ := by
  have hchoice : ∃ ts, ofSource "if x: # y\n  z".toList = .ok ts ∧
      ts.map Located.token = [.keyword .kwIf, .name "x", .mark .colon, .newline, .indent,
        .name "z", .newline, .dedent, .finish] := ⟨_, by cbv, by cbv⟩
  have hbroken : ofSource "if x:\n  y\n z".toList = .error ⟨.unmatchedIndentation, ⟨3, 2⟩⟩ := by
    cbv
  obtain ⟨ts, hts, htokens⟩ := hchoice
  exact ⟨⟨ts, hts, htokens, (ofSource_structure _).1 ts hts⟩, hbroken,
    ((ofSource_structure _).2 _).1 hbroken⟩

end Token

end ReactiveScript

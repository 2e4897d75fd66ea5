import Mathlib
import ReactiveScript.Proofs.Checked
import ReactiveScript.Proofs.Text.Brackets
import ReactiveScript.Proofs.Token.Lexeme
import ReactiveScript.Proofs.Token.Position

/-!
# The tokens of one line

A text without a line end has no layout but where it starts and where it ends: the tokens of its
lexemes, the end of the line and the end of the text.  A blank behind it moves these two ends.

* `Token.ofLine` — the tokens of the lexemes of a line.
* `Token.ofSource_line` — the tokens of a text that is one line.
* `Token.quotations` — the literals and comments of a text.
* `Token.depthAfter_line` — if these are balanced, the brackets of a text are its delimiters.
-/

set_option autoImplicit false

namespace ReactiveScript

namespace Token

open Text

/-! ## The scan -/

/-- What is scanned is a token of the text or a comment. -/
def Scanned.InLine (x : Scanned) : Prop :=
  (∃ t, x.lexeme = .token t ∧ t.isLayout = false) ∨ x.lexeme = .comment

/-- The token of a lexeme. -/
def Scanned.token? (x : Scanned) : Option Located :=
  match x.lexeme with
  | .token t => some ⟨t, x.span⟩
  | _ => none

/-- The tokens of the lexemes of a line. -/
def ofLine (xs : List Scanned) : List Located := xs.filterMap Scanned.token?

theorem ofLine_comment {x : Scanned} (hx : x.lexeme = .comment) (xs : List Scanned) :
    ofLine (x :: xs) = ofLine xs := by
  rw [ofLine, List.filterMap_cons_none, ofLine]
  rw [Scanned.token?, hx]

theorem ofLine_token {x : Scanned} {t : Token} (hx : x.lexeme = .token t) (xs : List Scanned) :
    ofLine (x :: xs) = ⟨t, x.span⟩ :: ofLine xs := by
  rw [ofLine, List.filterMap_cons_some, ofLine]
  rw [Scanned.token?, hx]

theorem isLayout_of_mem_ofLine {xs : List Scanned} (h : ∀ x ∈ xs, x.InLine) :
    ∀ t ∈ ofLine xs, t.token.isLayout = false := by
  induction xs with
  | nil => exact List.forall_mem_nil _
  | cons x xs ih =>
    obtain ⟨hx, hxs⟩ := List.forall_mem_cons.1 h
    rcases hx with ⟨t, ht, hlayout⟩ | hcomment
    · rw [ofLine_token ht]
      exact List.forall_mem_cons.2 ⟨hlayout, ih hxs⟩
    · rw [ofLine_comment hcomment]
      exact ih hxs

theorem scan_gap {c : Char} (h : isGap c = true) (p : Cursor) (cs : List Char) :
    scan p (c :: cs) = scan (p.next c) cs := by
  rw [scan, if_pos h]

theorem scan_lexeme {c : Char} (h : ¬isGap c = true) (p : Cursor) {cs : List Char} {l : Lexeme}
    {n : Nat} (hmunch : munch c cs = (l, n)) :
    scan p (c :: cs) =
      (⟨l, p.span, p.width⟩ :: (scan (p.past (c :: cs.take n)) (cs.drop n)).1,
        (scan (p.past (c :: cs.take n)) (cs.drop n)).2) := by
  rw [scan, if_neg h, hmunch]

theorem Cursor.past_append (p : Cursor) (cs cs' : List Char) :
    p.past (cs ++ cs') = (p.past cs).past cs' := List.foldl_append

/-- A comment on a line without an end takes the whole rest of the line. -/
theorem munch_comment {cs : List Char} (h : '\n' ∉ cs) : munch '#' cs = (.comment, cs.length) := by
  have hall : cs.takeWhile (· ≠ '\n') = cs :=
    List.takeWhile_eq_self_iff.2 fun c hc => decide_eq_true fun heq => h (heq ▸ hc)
  exact congrArg (Prod.mk Lexeme.comment) (congrArg List.length hall)

/-- A blank behind a line adds nothing to its lexemes. -/
theorem scan_blank {p : Cursor} {cs : List Char} (hline : '\n' ∉ cs)
    (h : ∀ x ∈ (scan p cs).1, ∀ slice, x.lexeme ≠ .stray slice) :
    scan p (cs ++ [' ']) = ((scan p cs).1, (scan p cs).2.next ' ') := by
  fun_induction scan p cs with
  | case1 p =>
    rw [List.nil_append, scan_gap rfl, scan]
  | case2 p c cs hgap ih =>
    rw [List.cons_append, scan_gap hgap]
    exact ih (fun hmem => hline (List.mem_cons_of_mem c hmem)) h
  | case3 p c cs hgap l n hmunch rest last hscan ih =>
    obtain ⟨hfits, hrest⟩ := List.forall_mem_cons.1 h
    have hcs : '\n' ∉ cs := fun hmem => hline (List.mem_cons_of_mem c hmem)
    rw [List.cons_append]
    by_cases hc : c = '#'
    · subst hc
      rw [munch_comment hcs] at hmunch
      cases hmunch
      have hblank : munch '#' (cs ++ [' ']) = (.comment, (cs ++ [' ']).length) :=
        munch_comment (by simp [hcs])
      rw [List.take_length, List.drop_length, scan] at hscan
      cases hscan
      rw [scan_lexeme hgap p hblank, List.take_length, List.drop_length, scan, ← List.cons_append,
        Cursor.past_append]
      rfl
    · have hle : n ≤ cs.length := (cut_munch hmunch hfits).le_length
      rw [hscan] at ih
      rw [scan_lexeme hgap p (munch_blank hc hmunch hfits), List.take_append_of_le_length hle,
        List.drop_append_of_le_length hle, ih (fun hmem => hcs (List.mem_of_mem_drop hmem)) hrest]

theorem Spells.eq_of_line {cs : List Char} (h : Spells cs .line) : cs = ['\n'] := by
  cases h
  rfl

theorem Spells.isLayout {cs : List Char} {t : Token} (h : Spells cs (.token t)) :
    t.isLayout = false := by
  cases h <;> rfl

/-- On one line there are tokens and comments. -/
theorem inLine_of_mem_scan {p : Cursor} {cs : List Char} (hline : '\n' ∉ cs)
    (h : ∀ x ∈ (scan p cs).1, ∀ slice, x.lexeme ≠ .stray slice) :
    ∀ x ∈ (scan p cs).1, x.InLine := by
  fun_induction scan p cs with
  | case1 p => exact List.forall_mem_nil _
  | case2 p c cs hgap ih => exact ih (fun hmem => hline (List.mem_cons_of_mem c hmem)) h
  | case3 p c cs hgap l n hmunch rest last hscan ih =>
    obtain ⟨hfits, hrest⟩ := List.forall_mem_cons.1 h
    rw [hscan] at ih
    refine List.forall_mem_cons.2 ⟨?_, ih (fun hmem => hline ?_) hrest⟩
    · have hspells : Spells (c :: cs.take n) l := (cut_munch hmunch hfits).spells
      cases l with
      | token t => exact Or.inl ⟨t, rfl, hspells.isLayout⟩
      | comment => exact Or.inr rfl
      | line =>
        rw [(List.cons.inj hspells.eq_of_line).1] at hline
        exact absurd (List.mem_cons_self ..) hline
      | stray slice => exact absurd rfl (hfits slice)
    · exact List.mem_cons_of_mem c (List.mem_of_mem_drop hmem)

theorem Cursor.width_lt_next {c : Char} (hc : c ≠ '\n') (p : Cursor) :
    p.width < (p.next c).width := by
  rw [next, if_neg hc]
  dsimp only
  split <;> omega

theorem Cursor.width_le_past {cs : List Char} (h : '\n' ∉ cs) (p : Cursor) :
    p.width ≤ (p.past cs).width := by
  induction cs generalizing p with
  | nil => exact Nat.le_refl _
  | cons c cs ih =>
    obtain ⟨hc, hcs⟩ := List.ne_and_not_mem_of_not_mem_cons h
    exact (p.width_lt_next hc.symm).le.trans (ih hcs (p.next c))

/-- In front of a lexeme a line is not narrower than where its scan started. -/
theorem width_le_of_mem_scan {p : Cursor} {cs : List Char} (hline : '\n' ∉ cs) :
    ∀ x ∈ (scan p cs).1, p.width ≤ x.width := by
  fun_induction scan p cs with
  | case1 p => exact List.forall_mem_nil _
  | case2 p c cs hgap ih =>
    obtain ⟨hc, hcs⟩ := List.ne_and_not_mem_of_not_mem_cons hline
    exact fun x hx => (p.width_lt_next hc.symm).le.trans (ih hcs x hx)
  | case3 p c cs hgap l n hmunch rest last hscan ih =>
    obtain ⟨hc, hcs⟩ := List.ne_and_not_mem_of_not_mem_cons hline
    rw [hscan] at ih
    have htake : '\n' ∉ c :: cs.take n :=
      List.not_mem_cons_of_ne_of_not_mem hc fun hmem => hcs (List.mem_of_mem_take hmem)
    refine List.forall_mem_cons.2 ⟨Nat.le_refl _, fun x hx => ?_⟩
    exact (Cursor.width_le_past htake p).trans
      (ih (fun hmem => hcs (List.mem_of_mem_drop hmem)) x hx)

/-! ## Layout -/

/-- The tokens that end a text of one line that is not indented. -/
def ends (last : Span) : List Located := [⟨.newline, last⟩, ⟨.finish, last⟩]

namespace Layout

/-- There are tokens only if nothing is stray. -/
theorem fits_of_run {last : Span} {s : Layout} {xs : List Scanned} {ts : List Located}
    (h : run last s xs = .ok ts) : ∀ x ∈ xs, ∀ slice, x.lexeme ≠ .stray slice := by
  induction xs generalizing s ts with
  | nil => exact List.forall_mem_nil _
  | cons x xs ih =>
    obtain ⟨⟨tokens, s'⟩, hstep, h⟩ := exists_of_bind h
    obtain ⟨rest, hrest, -⟩ := exists_of_bind h
    refine List.forall_mem_cons.2 ⟨fun slice hx => ?_, ih hrest⟩
    rw [step, hx] at hstep
    cases hstep

/-- A token changes how many brackets are open at most. -/
theorem exists_track (s : Layout) (t : Token) : ∃ depth, s.track t = { s with depth } := by
  rw [track.eq_def]
  split
  · split
    · exact ⟨_, rfl⟩
    · split
      · exact ⟨_, rfl⟩
      · exact ⟨s.depth, rfl⟩
  · exact ⟨s.depth, rfl⟩

theorem run_comment {last : Span} {s : Layout} {x : Scanned} (hx : x.lexeme = .comment)
    {xs : List Scanned} {ts : List Located} (h : run last s xs = .ok ts) :
    run last s (x :: xs) = .ok ts := by
  have hstep : s.step x = .ok ([], s) := by rw [step, hx]
  exact bind_eq_ok hstep (bind_eq_ok h rfl)

/-- Inside a line tokens follow one another up to its end. -/
theorem run_inside (last : Span) {s : Layout} (hs : s.atStart = false) {xs : List Scanned}
    (h : ∀ x ∈ xs, x.InLine) :
    run last s xs = .ok (ofLine xs ++ close ⟨s.levels, 0, false⟩ last) := by
  induction xs generalizing s with
  | nil =>
    rw [run, close, hs]
    rfl
  | cons x xs ih =>
    obtain ⟨hx, hxs⟩ := List.forall_mem_cons.1 h
    rcases hx with ⟨t, ht, -⟩ | hcomment
    · have hstep : s.step x = .ok ([⟨t, x.span⟩], s.track t) := by
        rw [step, ht, hs]
        rfl
      obtain ⟨depth, htrack⟩ := s.exists_track t
      have hrest : run last (s.track t) xs =
          .ok (ofLine xs ++ close ⟨s.levels, 0, false⟩ last) := by
        rw [htrack]
        exact ih hs hxs
      rw [ofLine_token ht]
      exact bind_eq_ok hstep (bind_eq_ok hrest rfl)
    · rw [ofLine_comment hcomment]
      exact run_comment hcomment (ih hs hxs)

/-- The first token of a text comes behind the layout of its line. -/
theorem run_token {s : Layout} {x : Scanned} {t : Token} (ht : x.lexeme = .token t)
    {before : List Located} (henter : start.enter x.width x.span = .ok (before, s))
    (hs : s.atStart = false) (last : Span) {xs : List Scanned} (h : ∀ x ∈ xs, x.InLine) :
    run last start (x :: xs) =
      .ok (before ++ ofLine (x :: xs) ++ close ⟨s.levels, 0, false⟩ last) := by
  obtain ⟨depth, htrack⟩ := s.exists_track t
  have hstep : start.step x = .ok (before ++ [⟨t, x.span⟩], { s with depth }) := by
    rw [step, ht, ← htrack]
    exact bind_eq_ok henter rfl
  have hrest := run_inside last (s := { s with depth }) hs h
  rw [ofLine_token ht]
  refine bind_eq_ok hstep (bind_eq_ok hrest ?_)
  simp only [List.append_assoc, List.cons_append, List.nil_append]

/-- A text of one line without a token, one that is indented, and one that is not. -/
theorem run_cases {xs : List Scanned} (h : ∀ x ∈ xs, x.InLine) :
    (∀ last, run last .start xs = .ok [⟨.finish, last⟩]) ∨
      (∀ last, ∃ s more, run last .start xs = .ok (⟨.indent, s⟩ :: more)) ∨
      (∃ x ∈ xs, x.width = 0) ∧ ∀ last, run last .start xs = .ok (ofLine xs ++ ends last) := by
  induction xs with
  | nil => exact Or.inl fun _ => rfl
  | cons x xs ih =>
    obtain ⟨hx, hxs⟩ := List.forall_mem_cons.1 h
    rcases hx with ⟨t, ht, -⟩ | hcomment
    · right
      by_cases hwidth : x.width = 0
      · have henter : start.enter x.width x.span = .ok ([], ⟨[], 0, false⟩) := by rw [hwidth]; rfl
        exact Or.inr ⟨⟨x, List.mem_cons_self .., hwidth⟩, fun last =>
          run_token ht henter rfl last hxs⟩
      · have henter : start.enter x.width x.span =
            .ok ([⟨.indent, x.span⟩], ⟨[x.width], 0, false⟩) := if_pos (Nat.pos_of_ne_zero hwidth)
        exact Or.inl fun last => ⟨x.span, _, run_token ht henter rfl last hxs⟩
    · rw [ofLine_comment hcomment]
      rcases ih hxs with hnone | hindent | ⟨⟨x', hx', hwidth⟩, hline⟩
      · exact Or.inl fun last => run_comment hcomment (hnone last)
      · refine Or.inr (Or.inl fun last => ?_)
        obtain ⟨s, more, hrun⟩ := hindent last
        exact ⟨s, more, run_comment hcomment hrun⟩
      · exact Or.inr (Or.inr ⟨⟨x', List.mem_cons_of_mem x hx', hwidth⟩, fun last =>
          run_comment hcomment (hline last)⟩)

end Layout

/-! ## A text of one line -/

theorem isBlank_of_le {c : Char} (h : 33 ≤ c.toNat) (h' : c.toNat ≤ 126) : isBlank c = false := by
  simp [isBlank, blanks, CodeRanges.has]
  omega

theorem isBlank_of_inName {c : Char} (h : inName c = true) : isBlank c = false := by
  simp only [inName, Char.isAlphanum, Char.isAlpha, Char.isUpper, Char.isLower, Char.isDigit,
    Char.isValue, Char.reduceVal, ge_iff_le, UInt32.le_iff_toNat_le, UInt32.reduceToNat,
    Bool.or_eq_true, Bool.and_eq_true, decide_eq_true_eq, Char.toNat_val] at h
  rcases h with ((h | h) | h) | rfl
  · exact isBlank_of_le (by omega) (by omega)
  · exact isBlank_of_le (by omega) (by omega)
  · exact isBlank_of_le (by omega) (by omega)
  · decide

theorem isBlank_of_inNumber {c : Char} (h : inNumber c = true) : isBlank c = false := by
  simp only [inNumber, Bool.or_eq_true, decide_eq_true_eq, or_assoc] at h
  rcases h with hdigit | rfl | rfl | rfl | rfl | rfl
  · exact isBlank_of_inName (by simp [inName, Char.isAlphanum, hdigit])
  all_goals decide

/-- White space starts no lexeme but the end of a line. -/
theorem Spells.isBlank {c : Char} {cs : List Char} {l : Lexeme} (h : Spells (c :: cs) l)
    (hl : l ≠ .line) : isBlank c = false := by
  generalize hw : c :: cs = w at h
  cases h with
  | line => exact absurd rfl hl
  | comment => cases hw; decide
  | text hq body =>
    cases hw
    rcases hq with rfl | rfl <;> decide
  | format hq body => cases hw; decide
  | number h x =>
    subst hw
    exact isBlank_of_inNumber (h c (List.mem_cons_self ..))
  | keyword h k =>
    subst hw
    exact isBlank_of_inName (h c (List.mem_cons_self ..))
  | name h s =>
    subst hw
    exact isBlank_of_inName (h c (List.mem_cons_self ..))
  | mark m =>
    have hmarks : m.text.toList.all (fun c => !Text.isBlank c) = true := by cases m <;> rfl
    simpa using List.all_eq_true.1 hmarks c (hw ▸ List.mem_cons_self ..)

/-- A line with a lexeme at the margin does not start with white space. -/
theorem exists_cons_of_mem_scan {cs : List Char} (hline : '\n' ∉ cs)
    (h : ∀ x ∈ (scan .start cs).1, ∀ slice, x.lexeme ≠ .stray slice) {x : Scanned}
    (hx : x ∈ (scan .start cs).1) (hwidth : x.width = 0) :
    ∃ c rest, cs = c :: rest ∧ Text.isBlank c = false := by
  cases cs with
  | nil =>
    rw [scan] at hx
    cases hx
  | cons c cs =>
    refine ⟨c, cs, rfl, ?_⟩
    obtain ⟨hc, hcs⟩ := List.ne_and_not_mem_of_not_mem_cons hline
    by_cases hgap : isGap c = true
    · -- a gap in front makes the line wider than the margin
      rw [scan_gap hgap] at hx
      have hlt := Cursor.start.width_lt_next hc.symm
      have hle := width_le_of_mem_scan hcs x hx
      omega
    · rw [scan_lexeme hgap .start rfl] at h
      obtain ⟨hfits, -⟩ := List.forall_mem_cons.1 h
      have hspells := (cut_munch rfl hfits).spells
      refine hspells.isBlank fun hl => hc ?_
      rw [hl] at hspells
      exact (List.cons.inj hspells.eq_of_line).1.symm

/-- **The tokens of a text that is one line**: those of its lexemes and the two that end it, unless
the text has no token or is indented.  A blank behind the text moves its end only, and the text does
not start with white space. -/
theorem ofSource_line {cs : List Char} (hline : '\n' ∉ cs) {ts : List Located}
    (h : ofSource cs = .ok ts) :
    (∃ last, ts = [⟨.finish, last⟩]) ∨ (∃ s more, ts = ⟨.indent, s⟩ :: more) ∨
      (∃ last, ts = ofLine (scan .start cs).1 ++ ends last) ∧
        (∃ last, ofSource (cs ++ [' ']) = .ok (ofLine (scan .start cs).1 ++ ends last)) ∧
          ∃ c rest, cs = c :: rest ∧ Text.isBlank c = false := by
  have hfits := Layout.fits_of_run h
  have hin := inLine_of_mem_scan hline hfits
  rcases Layout.run_cases hin with hnone | hindent | ⟨⟨x, hx, hwidth⟩, hrun⟩
  · exact Or.inl ⟨_, Except.ok.inj (h.symm.trans (hnone _))⟩
  · obtain ⟨s, more, hrun⟩ := hindent (scan .start cs).2.span
    exact Or.inr (Or.inl ⟨s, more, Except.ok.inj (h.symm.trans hrun)⟩)
  · have hblank : ofSource (cs ++ [' ']) =
        .ok (ofLine (scan .start cs).1 ++ ends ((scan .start cs).2.next ' ').span) := by
      rw [ofSource, scan_blank hline hfits]
      exact hrun _
    exact Or.inr (Or.inr ⟨⟨_, Except.ok.inj (h.symm.trans (hrun _))⟩, ⟨_, hblank⟩,
      exists_cons_of_mem_scan hline hfits hx hwidth⟩)

/-! ## Brackets -/

/-- Whether a lexeme is a literal or a comment. -/
def Lexeme.isQuotation : Lexeme → Bool
  | .token (.text _) => true
  | .token (.format _) => true
  | .comment => true
  | _ => false

/-- The literals and comments of a text, with their quotes. -/
def quotations (cs : List Char) : List (List Char) :=
  match cs with
  | [] => []
  | c :: cs =>
    if isGap c then quotations cs
    else
      let (lexeme, n) := munch c cs
      let rest := quotations (cs.drop n)
      if lexeme.isQuotation then (c :: cs.take n) :: rest else rest
termination_by cs.length
decreasing_by
  · simp
  · simp only [List.length_cons, List.length_drop]; omega

theorem plain_of_inName {c : Char} (h : inName c = true) : ¬opens c ∧ ¬closes c := by
  refine ⟨?_, ?_⟩
  · rintro (rfl | rfl | rfl) <;> cases h
  · rintro (rfl | rfl | rfl) <;> cases h

theorem plain_of_inNumber {c : Char} (h : inNumber c = true) : ¬opens c ∧ ¬closes c := by
  refine ⟨?_, ?_⟩
  · rintro (rfl | rfl | rfl) <;> cases h
  · rintro (rfl | rfl | rfl) <;> cases h

/-- The operator or delimiter that a lexeme is. -/
def Lexeme.marks : Lexeme → List Char
  | .token t => t.marks
  | _ => []

theorem marks_ofLine_cons (x : Scanned) (xs : List Scanned) :
    Grammar.marks (ofLine (x :: xs)) = x.lexeme.marks ++ Grammar.marks (ofLine xs) := by
  rw [ofLine, List.filterMap_cons, Scanned.token?]
  cases x.lexeme <;> rfl

/-- The brackets of a lexeme are those of its token, if a literal or comment is balanced. -/
theorem Spells.depthAfter {cs : List Char} {l : Lexeme} (h : Spells cs l) (hl : l ≠ .line)
    (hquoted : l.isQuotation = true → Balanced cs) (d : Nat) :
    Text.depthAfter d cs = Text.depthAfter d l.marks := by
  cases h with
  | line => exact absurd rfl hl
  | comment => exact (hquoted rfl).depthAfter d
  | text => exact (hquoted rfl).depthAfter d
  | format => exact (hquoted rfl).depthAfter d
  | number h => exact (balanced_of_plain fun c hc => plain_of_inNumber (h c hc)).depthAfter d
  | keyword h => exact (balanced_of_plain fun c hc => plain_of_inName (h c hc)).depthAfter d
  | name h => exact (balanced_of_plain fun c hc => plain_of_inName (h c hc)).depthAfter d
  | mark m => rfl

theorem quotations_gap {c : Char} (h : isGap c = true) (cs : List Char) :
    quotations (c :: cs) = quotations cs := by
  rw [quotations, if_pos h]

theorem quotations_lexeme {c : Char} (h : ¬isGap c = true) {cs : List Char} {l : Lexeme} {n : Nat}
    (hmunch : munch c cs = (l, n)) :
    quotations (c :: cs) =
      if l.isQuotation then (c :: cs.take n) :: quotations (cs.drop n)
      else quotations (cs.drop n) := by
  rw [quotations, if_neg h, hmunch]

/-- If the literals and comments of a line are balanced, its brackets are its delimiters. -/
theorem depthAfter_line {p : Cursor} {cs : List Char} (hline : '\n' ∉ cs)
    (h : ∀ x ∈ (scan p cs).1, ∀ slice, x.lexeme ≠ .stray slice)
    (hquoted : ∀ w ∈ quotations cs, Balanced w) (d : Nat) :
    depthAfter d cs = depthAfter d (Grammar.marks (ofLine (scan p cs).1)) := by
  fun_induction scan p cs generalizing d with
  | case1 p => rfl
  | case2 p c cs hgap ih =>
    have hplain : ¬opens c ∧ ¬closes c := by
      constructor
      · rintro (rfl | rfl | rfl) <;> cases hgap
      · rintro (rfl | rfl | rfl) <;> cases hgap
    rw [depthAfter_cons_of_plain hplain.1 hplain.2]
    rw [quotations_gap hgap] at hquoted
    exact ih (fun hmem => hline (List.mem_cons_of_mem c hmem)) h hquoted d
  | case3 p c cs hgap l n hmunch rest last hscan ih =>
    obtain ⟨hc, hcs⟩ := List.ne_and_not_mem_of_not_mem_cons hline
    obtain ⟨hfits, hrest⟩ := List.forall_mem_cons.1 h
    rw [quotations_lexeme hgap hmunch] at hquoted
    have hspells : Spells (c :: cs.take n) l := (cut_munch hmunch hfits).spells
    have hl : l ≠ .line := fun hl => hc (List.cons.inj (hl ▸ hspells).eq_of_line).1.symm
    have hself : l.isQuotation = true → Balanced (c :: cs.take n) := fun hl =>
      hquoted _ (by rw [if_pos hl]; exact List.mem_cons_self ..)
    have hothers : ∀ w ∈ quotations (cs.drop n), Balanced w := by
      intro w hw
      refine hquoted w ?_
      split
      · exact List.mem_cons_of_mem _ hw
      · exact hw
    rw [hscan] at ih
    have hih : (depthAfter · (cs.drop n)) = (depthAfter · (Grammar.marks (ofLine rest))) :=
      funext (ih (fun hmem => hcs (List.mem_of_mem_drop hmem)) hrest hothers)
    have hsplit : c :: cs = c :: cs.take n ++ cs.drop n := by
      rw [List.cons_append, List.take_append_drop]
    rw [hsplit, depthAfter_append, hspells.depthAfter hl hself, hih, marks_ofLine_cons,
      depthAfter_append]

end Token

end ReactiveScript

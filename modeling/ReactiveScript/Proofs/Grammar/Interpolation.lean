import Mathlib
import ReactiveScript.Proofs.Grammar.Reading
import ReactiveScript.Proofs.Parts
import ReactiveScript.Proofs.Token.Line

/-!
# Interpolated expressions

An expression that stands by itself may also stand in a format string, if its brackets are
balanced where they stand, inside literals and comments as well as outside; if they are not, the
interpolation ends at the wrong place.

* `Grammar.interpolated` — the body of a format string with one interpolation.
* `Grammar.read_mono` — a text is read whatever else the bound on the nesting would allow.
* `Grammar.read_blank` — a blank behind an expression changes nothing.
* `Grammar.interpolation_iff_balanced` — when an interpolated expression is read as such.
-/

set_option autoImplicit false

namespace ReactiveScript

namespace Expr

/-! ## Expressions without their spans -/

/-- An expression without its spans. -/
def bare (e : Expr) : Expr := e.mapWith (fun _ => .none) id

/-- Moving an expression changes its spans only. -/
theorem bare_shift (origin : Span) (e : Expr) : (e.shift origin).bare = e.bare :=
  mapWith_mapWith origin.within (fun _ => .none) e

end Expr

namespace Grammar

open Text

variable {read read' : List Char → Except SyntaxError Expr} {span : Span} {start : Nat}
  {literal : List Char}

/-! ## The pieces of a body -/

theorem piecesFrom_nil : piecesFrom read span start literal [] = .ok (literalPiece literal) := by
  rw [piecesFrom]

theorem piecesFrom_open {cs : List Char} (h : ∀ cs', cs ≠ '{' :: cs') :
    piecesFrom read span start literal ('{' :: cs) =
      match holeLength 1 cs with
      | none => .error ⟨.openBrace, span⟩
      | some n => do
        let piece ← hole read span (start + 1) (cs.take n)
        let rest ← piecesFrom read span (start + n + 2) [] (cs.drop (n + 1))
        return literalPiece literal ++ piece :: rest := by
  rw [piecesFrom]
  · rfl
  · exact h

theorem piecesFrom_lone {cs : List Char} (h : ∀ cs', cs ≠ '}' :: cs') :
    piecesFrom read span start literal ('}' :: cs) = .error ⟨.loneBrace, span⟩ := by
  rw [piecesFrom]
  exact h

theorem piecesFrom_cons {c : Char} (ho : c ≠ '{') (hc : c ≠ '}') (cs : List Char) :
    piecesFrom read span start literal (c :: cs) =
      piecesFrom read span (start + 1) (c :: literal) cs := by
  rw [piecesFrom]
  · exact fun _ h _ => ho h
  · exact fun _ h _ => hc h
  · exact hc
  · exact ho

/-! ## More that can be read -/

theorem hole_mono (hread : ∀ cs e, read cs = .ok e → read' cs = .ok e) {fragment : List Char}
    {piece : Piece} (h : hole read span start fragment = .ok piece) :
    hole read' span start fragment = .ok piece := by
  rw [hole] at h ⊢
  dsimp only at h ⊢
  split at h
  · cases h
  · rename_i hne
    rw [if_neg hne]
    split at h
    · rename_i e he
      rw [hread _ _ he]
      exact h
    · cases h

theorem piecesFrom_mono (hread : ∀ cs e, read cs = .ok e → read' cs = .ok e) {cs : List Char}
    {ps : List Piece} (h : piecesFrom read span start literal cs = .ok ps) :
    piecesFrom read' span start literal cs = .ok ps := by
  fun_induction piecesFrom read span start literal cs generalizing ps with
  | case1 start literal =>
    rw [piecesFrom]
    exact h
  | case2 start literal cs ih =>
    rw [piecesFrom]
    exact ih h
  | case3 start literal cs ih =>
    rw [piecesFrom]
    exact ih h
  | case4 start literal cs hne => cases h
  | case5 start literal cs hne hnone => cases h
  | case6 start literal cs hne n hsome ih =>
    obtain ⟨piece, hpiece, h⟩ := exists_of_bind h
    obtain ⟨rest, hrest, h⟩ := exists_of_bind h
    rw [piecesFrom_open hne, hsome]
    exact bind_eq_ok (hole_mono hread hpiece) (bind_eq_ok (ih hrest) h)
  | case7 start literal c cs _ _ hc ho ih =>
    rw [piecesFrom_cons ho hc]
    exact ih h

/-- A text that is read is read whatever else the bound on the nesting would allow. -/
theorem read_mono {n m : Nat} (hnm : n ≤ m) {cs : List Char} {e : Expr}
    (h : Grammar.read n cs = .ok e) : Grammar.read m cs = .ok e := by
  induction n generalizing m cs e with
  | zero => cases h
  | succ n ih =>
    obtain ⟨m, rfl⟩ : ∃ k, m = k + 1 := ⟨m - 1, by omega⟩
    obtain ⟨ts, hts, h⟩ := exists_of_bind h
    have hformat : ∀ raw s ps, pieces (Grammar.read n) raw s = .ok ps →
        pieces (Grammar.read m) raw s = .ok ps := fun raw s ps hps =>
      piecesFrom_mono (fun cs e he => ih (Nat.le_of_succ_le_succ hnm) he) hps
    exact bind_eq_ok hts (follows_wholeExpression hformat (allAlike_refl ts) h)

/-! ## One line -/

/-- An expression starts with a token of the text. -/
theorem isLayout_of_wholeExpression {format : FormatParser} {t : Located} {ts : List Located}
    {e : Expr} (h : wholeExpression format (t :: ts) = .ok e) : t.token.isLayout = false := by
  obtain ⟨⟨e', rest⟩, he, -⟩ := exists_of_bind h
  obtain ⟨t', more, heq, ht', -⟩ := begins_expressionAt _ _ _ _ _ he
  cases heq
  exact ht'

/-- The tokens of an expression on one line. -/
theorem exists_ends_of_read {n : Nat} {cs : List Char} (hline : '\n' ∉ cs) {e : Expr}
    (h : Grammar.read (n + 1) cs = .ok e) :
    (∃ last, wholeExpression (pieces (Grammar.read n))
        (Token.ofLine (Token.scan .start cs).1 ++ Token.ends last) = .ok e) ∧
      (∃ last, Token.ofSource (cs ++ [' ']) =
        .ok (Token.ofLine (Token.scan .start cs).1 ++ Token.ends last)) ∧
      ∃ c rest, cs = c :: rest ∧ isBlank c = false := by
  obtain ⟨ts, hts, h⟩ := exists_of_bind h
  rcases Token.ofSource_line hline hts with ⟨last, rfl⟩ | ⟨s, more, rfl⟩ |
    ⟨⟨last, rfl⟩, hblank, hfirst⟩
  · cases isLayout_of_wholeExpression h
  · cases isLayout_of_wholeExpression h
  · exact ⟨⟨last, h⟩, hblank, hfirst⟩

theorem allAlike_ends (ts : List Located) (last last' : Span) :
    AllAlike (ts ++ Token.ends last) (ts ++ Token.ends last') :=
  List.rel_append (allAlike_refl ts)
    (.cons (Or.inr ⟨rfl, rfl⟩) (.cons (Or.inr ⟨rfl, rfl⟩) .nil))

/-- **A blank behind an expression on one line changes nothing.** -/
theorem read_blank {n : Nat} {cs : List Char} (hline : '\n' ∉ cs) {e : Expr}
    (h : Grammar.read n cs = .ok e) : Grammar.read n (cs ++ [' ']) = .ok e := by
  cases n with
  | zero => cases h
  | succ n =>
    obtain ⟨⟨last, he⟩, ⟨last', hblank⟩, -⟩ := exists_ends_of_read hline h
    exact bind_eq_ok hblank
      (follows_wholeExpression (fun _ _ _ h => h) (allAlike_ends _ last last') he)

/-- An expression on one line whose literals and comments are balanced is balanced. -/
theorem balanced_of_quotations {n : Nat} {cs : List Char} (hline : '\n' ∉ cs) {e : Expr}
    (h : Grammar.read n cs = .ok e) (hquoted : ∀ w ∈ Token.quotations cs, Balanced w) :
    Balanced cs := by
  cases n with
  | zero => cases h
  | succ n =>
    obtain ⟨ts, hts, -⟩ := exists_of_bind h
    obtain ⟨⟨last, he⟩, -, -⟩ := exists_ends_of_read hline h
    have hfits := Token.Layout.fits_of_run hts
    have hbody := Token.isLayout_of_mem_ofLine (Token.inLine_of_mem_scan hline hfits)
    have hends : ∀ t ∈ Token.ends last, t.token.isLayout = true := by
      simp [Token.ends, Token.isLayout]
    exact (Token.depthAfter_line hline hfits hquoted 0).trans (balanced_marks hbody hends he)

/-! ## The text of an interpolation -/

/-- A format is not followed by a blank. -/
theorem readFormat_blank (cs : List Char) : readFormat (cs ++ [' ']) = none := by
  cases cs with
  | nil => rfl
  | cons c cs =>
    rw [List.cons_append, readFormat.eq_def]
    split
    · rename_i heq
      obtain ⟨-, rfl⟩ := List.cons.inj heq
      rw [List.getLast?_concat, if_neg (by decide)]
    · rfl

theorem splitFormat_blank (cs : List Char) : splitFormat (cs ++ [' ']) = (cs ++ [' '], none) := by
  have htail : ((cs ++ [' ']).reverse.takeWhile (· ≠ ':')).reverse =
      (cs.reverse.takeWhile (· ≠ ':')).reverse ++ [' '] := by
    simp
  rw [splitFormat]
  split
  · rfl
  · rw [htail, readFormat_blank]

theorem foldl_byteLength (n : Nat) (cs : List Char) :
    cs.foldl (fun n c => n + c.utf8Size) n = n + byteLength cs := by
  induction cs generalizing n with
  | nil => rfl
  | cons c cs ih =>
    rw [byteLength, List.foldl_cons, List.foldl_cons, ih, ih]
    omega

theorem byteLength_cons (c : Char) (cs : List Char) :
    byteLength (c :: cs) = c.utf8Size + byteLength cs := by
  rw [byteLength, List.foldl_cons, foldl_byteLength, Nat.zero_add]

theorem trimEnd_ne_nil {c : Char} (h : isBlank c = false) (cs : List Char) :
    trimEnd (c :: cs) ≠ [] := by
  rw [trimEnd, Ne, List.reverse_eq_nil_iff, List.dropWhile_eq_nil_iff]
  intro hall
  have hc := hall c (List.mem_reverse.2 (List.mem_cons_self ..))
  rw [h] at hc
  cases hc

/-- An expression between blanks is what the text of an interpolation stands for. -/
theorem hole_padded {c : Char} {cs : List Char} (hc : isBlank c = false) {e : Expr}
    (h : read (c :: cs ++ [' ']) = .ok e) :
    hole read span start (' ' :: (c :: cs ++ [' '])) =
      .ok (.hole (e.shift ⟨span.line, span.col + 2 + start + 1⟩) none) := by
  have htrim : trimStart (' ' :: (c :: cs ++ [' '])) = c :: cs ++ [' '] := by
    rw [trimStart, List.dropWhile_cons_of_pos (by decide), List.cons_append,
      List.dropWhile_cons_of_neg (by rw [hc]; exact Bool.false_ne_true)]
  have hlead : byteLength (' ' :: (c :: cs ++ [' '])) - byteLength (c :: cs ++ [' ']) = 1 := by
    rw [byteLength_cons, Nat.add_sub_cancel]
    rfl
  have hne : trimEnd (c :: cs ++ [' ']) ≠ [] := trimEnd_ne_nil hc (cs ++ [' '])
  rw [hole, ← List.cons_append, splitFormat_blank, List.cons_append]
  dsimp only
  rw [htrim, if_neg hne, h, hlead]

/-- The text of an interpolation stands for an interpolation. -/
theorem exists_of_hole {fragment : List Char} {piece : Piece}
    (h : hole read span start fragment = .ok piece) : ∃ e places, piece = .hole e places := by
  rw [hole] at h
  dsimp only at h
  split at h
  · cases h
  · split at h
    · cases h
      exact ⟨_, _, rfl⟩
    · cases h

/-! ## A body with one interpolation -/

/-- The body of a format string: the text `e` in braces and blanks, between `p` and `s`. -/
def interpolated (p e s : List Char) : List Char := p ++ '{' :: ' ' :: (e ++ ' ' :: '}' :: s)

/-- A text that stands in a format string for itself. -/
def Verbatim (cs : List Char) : Prop := '{' ∉ cs ∧ '}' ∉ cs ∧ '\\' ∉ cs

instance (cs : List Char) : Decidable (Verbatim cs) :=
  inferInstanceAs (Decidable ('{' ∉ cs ∧ '}' ∉ cs ∧ '\\' ∉ cs))

/-- A text as a piece; no piece if there is none. -/
def verbatim (cs : List Char) : List Piece := if cs = [] then [] else [.text (String.ofList cs)]

theorem Verbatim.of_subset {cs cs' : List Char} (h : Verbatim cs) (hsub : cs' ⊆ cs) :
    Verbatim cs' :=
  ⟨fun hmem => h.1 (hsub hmem), fun hmem => h.2.1 (hsub hmem), fun hmem => h.2.2 (hsub hmem)⟩

theorem literalPiece_reverse {cs : List Char} (h : Verbatim cs) :
    literalPiece cs.reverse = verbatim cs := by
  rw [literalPiece, verbatim, List.reverse_reverse, Token.unescape_plain h.2.2]
  simp only [List.reverse_eq_nil_iff]

theorem verbatim_injective {cs cs' : List Char} (h : verbatim cs = verbatim cs') : cs = cs' := by
  rw [verbatim, verbatim] at h
  split at h
  · split at h
    · rename_i hcs hcs'
      rw [hcs, hcs']
    · cases h
  · split at h
    · cases h
    · have htext := List.cons.inj h
      exact String.ofList_injective (Piece.text.inj htext.1)

/-- Literal text in front of something is collected. -/
theorem piecesFrom_verbatim {cs : List Char} (h : Verbatim cs) (more : List Char) :
    piecesFrom read span start literal (cs ++ more) =
      piecesFrom read span (start + cs.length) (cs.reverse ++ literal) more := by
  induction cs generalizing start literal with
  | nil => rfl
  | cons c cs ih =>
    have hc : c ≠ '{' := fun hc => h.1 (hc ▸ List.mem_cons_self ..)
    have hc' : c ≠ '}' := fun hc => h.2.1 (hc ▸ List.mem_cons_self ..)
    rw [List.cons_append, piecesFrom_cons hc hc', ih (h.of_subset (List.subset_cons_self c cs)),
      List.reverse_cons, List.append_assoc, List.length_cons, Nat.add_assoc, Nat.add_comm 1]
    rfl

theorem piecesFrom_of_verbatim {cs : List Char} (h : Verbatim cs) :
    piecesFrom read span start [] cs = .ok (verbatim cs) := by
  have hall : piecesFrom read span start [] (cs ++ []) =
      piecesFrom read span (start + cs.length) (cs.reverse ++ []) [] := piecesFrom_verbatim h []
  rw [List.append_nil, List.append_nil] at hall
  rw [hall, piecesFrom_nil, literalPiece_reverse h]

/-- **A balanced expression is interpolated**, moved to where it stands. -/
theorem piecesFrom_interpolated (span : Span) {e p s : List Char} {x : Expr} (hp : Verbatim p)
    (hs : Verbatim s) (he : ∃ c rest, e = c :: rest ∧ isBlank c = false)
    (hread : read (e ++ [' ']) = .ok x) (hbalanced : Balanced e) :
    piecesFrom read span 0 [] (interpolated p e s) =
      .ok (verbatim p ++
        .hole (x.shift ⟨span.line, span.col + p.length + 4⟩) none :: verbatim s) := by
  have hopen : ∀ cs', ' ' :: (e ++ ' ' :: '}' :: s) ≠ '{' :: cs' := fun cs' h => by cases h
  have hlength : holeLength 1 (' ' :: (e ++ ' ' :: '}' :: s)) = some (e.length + 2) := by
    have hend : holeLength 1 (' ' :: '}' :: s) = some 1 := rfl
    rw [holeLength_cons_of_plain (by decide) (by decide), holeLength_append hbalanced, hend]
    simp only [Option.map_some, Option.some.injEq]
    omega
  have htake : (' ' :: (e ++ ' ' :: '}' :: s)).take (e.length + 2) = ' ' :: (e ++ [' ']) := by
    rw [List.take_succ_cons, List.take_length_add_append]
    rfl
  have hdrop : (' ' :: (e ++ ' ' :: '}' :: s)).drop (e.length + 2 + 1) = s := by
    rw [List.drop_succ_cons, List.drop_length_add_append]
    rfl
  obtain ⟨c, rest, rfl, hc⟩ := he
  rw [interpolated, piecesFrom_verbatim hp, piecesFrom_open hopen, hlength]
  dsimp only
  rw [htake, hdrop, hole_padded hc hread, piecesFrom_of_verbatim hs, List.append_nil,
    literalPiece_reverse hp]
  have hcol : span.col + 2 + (0 + p.length + 1) + 1 = span.col + p.length + 4 := by omega
  rw [hcol]
  rfl

/-- A doubled brace in a text stands in front of a blank in it. -/
theorem exists_append_of_pair {c : Char} (hc : c ≠ ' ') {w cs more : List Char}
    (h : w ++ ' ' :: more = c :: c :: cs) : ∃ w', cs = w' ++ ' ' :: more := by
  match w with
  | [] => exact absurd (List.cons.inj h).1.symm hc
  | [_] => exact absurd (List.cons.inj (List.cons.inj h).2).1.symm hc
  | _ :: _ :: w => exact ⟨w, (List.cons.inj (List.cons.inj h).2).2.symm⟩

/-- A brace that closes nothing can stand behind a blank only if something is interpolated in
front of it. -/
theorem exists_hole_of_lone {w s : List Char} (hs : ∀ cs, s ≠ '}' :: cs) {ps : List Piece}
    (h : piecesFrom read span start literal (w ++ ' ' :: '}' :: s) = .ok ps) :
    ∃ e places, Piece.hole e places ∈ ps := by
  generalize hcs : w ++ ' ' :: '}' :: s = cs at h
  fun_induction piecesFrom read span start literal cs generalizing w ps with
  | case1 => exact absurd hcs (by simp)
  | case2 start literal cs ih =>
    obtain ⟨w, rfl⟩ := exists_append_of_pair (by decide) hcs
    exact ih rfl h
  | case3 start literal cs ih =>
    obtain ⟨w, rfl⟩ := exists_append_of_pair (by decide) hcs
    exact ih rfl h
  | case4 start literal cs hne => cases h
  | case5 start literal cs hne hnone => cases h
  | case6 start literal cs hne n hsome ih =>
    obtain ⟨piece, hpiece, h⟩ := exists_of_bind h
    obtain ⟨rest, hrest, h⟩ := exists_of_bind h
    cases h
    obtain ⟨e, places, rfl⟩ := exists_of_hole hpiece
    exact ⟨e, places, List.mem_append_right _ (List.mem_cons_self ..)⟩
  | case7 start literal c cs _ _ hc ho ih =>
    cases w with
    | nil =>
      obtain ⟨-, rfl⟩ := List.cons.inj hcs
      rw [piecesFrom_lone hs] at h
      cases h
    | cons c' w =>
      obtain ⟨-, rfl⟩ := List.cons.inj hcs
      exact ih rfl h

theorem not_mem_verbatim {cs : List Char} {e : Expr} {places : Option Nat} :
    Piece.hole e places ∉ verbatim cs := by
  rw [verbatim]
  split <;> simp

/-- What is left behind an interpolation. -/
theorem piecesFrom_behind {cs : List Char} (hopen : ∀ cs', cs ≠ '{' :: cs') {x : Expr}
    {places : Option Nat} {ps : List Piece}
    (h : piecesFrom read span start literal ('{' :: cs) =
      .ok (literalPiece literal ++ .hole x places :: ps)) :
    ∃ n, holeLength 1 cs = some n ∧
      piecesFrom read span (start + n + 2) [] (cs.drop (n + 1)) = .ok ps := by
  rw [piecesFrom_open hopen] at h
  split at h
  · cases h
  · rename_i n hlength
    obtain ⟨piece, -, h⟩ := exists_of_bind h
    obtain ⟨rest, hrest, h⟩ := exists_of_bind h
    obtain ⟨-, rfl⟩ := List.cons.inj (List.append_cancel_left (Except.ok.inj h))
    exact ⟨n, hlength, hrest⟩

/-- An expression that is interpolated is balanced. -/
theorem balanced_of_piecesFrom {e p s : List Char} (hp : Verbatim p) (hs : Verbatim s) {x : Expr}
    {places : Option Nat}
    (h : piecesFrom read span 0 [] (interpolated p e s) =
      .ok (verbatim p ++ .hole x places :: verbatim s)) : Balanced e := by
  have hopen : ∀ cs', ' ' :: (e ++ ' ' :: '}' :: s) ≠ '{' :: cs' := fun cs' h => by cases h
  have hclose : ∀ cs', s ≠ '}' :: cs' := fun cs' heq => hs.2.1 (heq ▸ List.mem_cons_self ..)
  rw [interpolated, piecesFrom_verbatim hp, List.append_nil, ← literalPiece_reverse hp] at h
  obtain ⟨n, hlength, hbehind⟩ := piecesFrom_behind hopen h
  have hblank : depthAfter 0 (' ' :: e) = depthAfter 0 e :=
    depthAfter_cons_of_plain (by decide) (by decide) 0 e
  cases hdepth : depthAfter 0 e with
  | none =>
    -- the interpolation ends inside `e`, and its own closing brace is left over
    obtain ⟨m, hm, hlength'⟩ := exists_holeLength (hblank.trans hdepth) (' ' :: '}' :: s)
    obtain rfl : n = m := Option.some.inj (hlength.symm.trans hlength')
    rw [← List.cons_append, List.drop_append_of_le_length hm] at hbehind
    obtain ⟨x', places', hmem⟩ := exists_hole_of_lone hclose hbehind
    exact absurd hmem not_mem_verbatim
  | some d =>
    cases d with
    | zero => exact hdepth
    | succ d =>
      -- the interpolation takes its own closing brace for another one, and ends inside `s`
      have hdepth' : depthAfter 0 (' ' :: e ++ [' ', '}']) = some d := by
        rw [depthAfter_append, hblank, hdepth]
        rfl
      have hsplit : ' ' :: (e ++ ' ' :: '}' :: s) = (' ' :: e ++ [' ', '}']) ++ s := by simp
      rw [hsplit, holeLength_append hdepth'] at hlength
      obtain ⟨m, hm, rfl⟩ := Option.map_eq_some_iff.1 hlength
      have hshort : m + 1 ≤ s.length := holeLength_lt hm
      have hadd : m + (' ' :: e ++ [' ', '}']).length + 1 =
          (' ' :: e ++ [' ', '}']).length + (m + 1) := by omega
      rw [hsplit, hadd, List.drop_length_add_append,
        piecesFrom_of_verbatim (hs.of_subset (List.drop_subset _ _))] at hbehind
      have heq : (s.drop (m + 1)).length = s.length :=
        congrArg List.length (verbatim_injective (Except.ok.inj hbehind))
      rw [List.length_drop] at heq
      omega

/-! ## A whole format string -/

/-- A text can stand in a literal with the quote `q` without an escape. -/
def Quotable (q : Char) (cs : List Char) : Prop := ∀ c ∈ cs, c ≠ '\\' ∧ c ≠ '\n' ∧ c ≠ q

instance (q : Char) (cs : List Char) : Decidable (Quotable q cs) :=
  decidable_of_iff (cs.all fun c => c != '\\' && c != '\n' && c != q) <| by
    simp [Quotable, and_assoc]

theorem Quotable.newline {q : Char} {cs : List Char} (h : Quotable q cs) : '\n' ∉ cs :=
  fun hmem => (h _ hmem).2.1 rfl

theorem quotable_interpolated {q : Char} (hq : q = '"' ∨ q = '\'') {e p s : List Char}
    (he : Quotable q e) (hp : Quotable q p) (hs : Quotable q s) :
    Quotable q (interpolated p e s) := by
  have hmarks : Quotable q ['{', ' ', '}'] := by rcases hq with rfl | rfl <;> simp [Quotable]
  intro c hc
  simp only [interpolated, List.mem_append, List.mem_cons] at hc
  rcases hc with hc | rfl | rfl | hc | rfl | rfl | hc
  · exact hp c hc
  · exact hmarks _ (by decide)
  · exact hmarks _ (by decide)
  · exact he c hc
  · exact hmarks _ (by decide)
  · exact hmarks _ (by decide)
  · exact hs c hc

/-- The tokens of a text that is a format string. -/
theorem ofSource_format {q : Char} (hq : q = '"' ∨ q = '\'') {body : List Char}
    (hbody : Quotable q body) :
    ∃ last, Token.ofSource ('f' :: q :: (body ++ [q])) =
      .ok (⟨.format (String.ofList body), ⟨1, 1⟩⟩ :: Token.ends last) := by
  have hclosed : Token.literalBody q (body ++ [q]) = (body, true) := by
    refine Token.literalBody_plain ?_ ?_ hbody []
    · rcases hq with rfl | rfl <;> decide
    · rcases hq with rfl | rfl <;> decide
  have hmunch : Token.munch 'f' (q :: (body ++ [q])) =
      (.token (.format (String.ofList body)), (q :: (body ++ [q])).length) := by
    have hformat : Token.munch 'f' (q :: (body ++ [q])) = Token.munchFormat q (body ++ [q]) := by
      rcases hq with rfl | rfl <;> rfl
    rw [hformat, Token.munchFormat, hclosed, List.length_cons, List.length_append]
    rfl
  refine ⟨(Token.Cursor.start.past ('f' :: q :: (body ++ [q]))).span, ?_⟩
  rw [Token.ofSource, Token.scan_lexeme (by decide) _ hmunch, List.drop_length, List.take_length,
    Token.scan]
  rfl

/-- A format string by itself is an expression. -/
theorem wholeExpression_format {format : FormatParser} (raw : String) (s last : Span) :
    wholeExpression format (⟨.format raw, s⟩ :: Token.ends last) =
      (format raw s).map (.format s) := by
  have hprimary : expression format (⟨.format raw, s⟩ :: Token.ends last) =
      (format raw s).map fun ps => (.format s ps, Token.ends last) := by
    cases hraw : format raw s with
    | error err =>
      simp [expression, expressionAt, disjunction, conjunction, chain, negation, comparison, sum,
        product, signed, applied, primary, hraw, bind, Except.bind, Except.map]
    | ok ps =>
      simp [expression, expressionAt, disjunction, conjunction, chain, negation, comparison, sum,
        product, signed, applied, primary, hraw, bind, Except.bind, Except.map]
      rfl
  rw [wholeExpression, hprimary]
  cases format raw s <;> rfl

/-- **A format string by itself is read as its pieces.** -/
theorem ofSource_format_iff {q : Char} (hq : q = '"' ∨ q = '\'') {body : List Char}
    (hbody : Quotable q body) {ps : List Piece} :
    Expr.ofSource ('f' :: q :: (body ++ [q])) = .ok (.format ⟨1, 1⟩ ps) ↔
      piecesFrom (Grammar.read (body.length + 3)) ⟨1, 1⟩ 0 [] body = .ok ps := by
  obtain ⟨last, hts⟩ := ofSource_format hq hbody
  have hread : Expr.ofSource ('f' :: q :: (body ++ [q])) =
      (piecesFrom (Grammar.read (body.length + 3)) ⟨1, 1⟩ 0 [] body).map (.format ⟨1, 1⟩) := by
    have hlength : ('f' :: q :: (body ++ [q])).length = body.length + 3 := by simp
    rw [Expr.ofSource, hlength, Grammar.read, hts]
    refine (wholeExpression_format _ _ _).trans ?_
    rw [pieces, String.toList_ofList]
  rw [hread]
  refine ⟨fun h => ?_, fun h => by rw [h]; rfl⟩
  obtain ⟨ps', hps', heq⟩ := exists_of_map h
  rw [hps', (Expr.format.inj heq).2]

theorem formatPieces_ofList (cs : List Char) (span : Span) :
    formatPieces (String.ofList cs) span = piecesFrom Expr.ofSource span 0 [] cs := by
  rw [formatPieces, pieces, String.toList_ofList]

/-- **An expression may be interpolated if and only if its brackets are balanced.**  It is then the
one piece between the literal text around it, the same up to its spans; and it is balanced whenever
its literals and comments are. -/
theorem interpolation_iff_balanced {q : Char} (hq : q = '"' ∨ q = '\'') {e p s : List Char}
    {x : Expr} (he : Quotable q e) (hx : Expr.ofSource e = .ok x)
    (hp : Quotable q p ∧ Verbatim p) (hs : Quotable q s ∧ Verbatim s) :
    (∀ span, (∃ x', formatPieces (String.ofList (interpolated p e s)) span =
          .ok (verbatim p ++ .hole x' none :: verbatim s) ∧ x'.bare = x.bare) ↔ Balanced e) ∧
      ((∃ x', Expr.ofSource ('f' :: q :: (interpolated p e s ++ [q])) =
          .ok (.format ⟨1, 1⟩ (verbatim p ++ .hole x' none :: verbatim s)) ∧ x'.bare = x.bare) ↔
        Balanced e) ∧
      ((∀ w ∈ Token.quotations e, Balanced w) → Balanced e) := by
  have hread : ∀ {n}, e.length + 1 ≤ n → Grammar.read n (e ++ [' ']) = .ok x := fun hn =>
    read_blank he.newline (read_mono hn hx)
  obtain ⟨-, -, hfirst⟩ := exists_ends_of_read he.newline hx
  have hbody : Quotable q (interpolated p e s) := quotable_interpolated hq he hp.1 hs.1
  refine ⟨fun span => ⟨?_, fun hbalanced => ?_⟩, ⟨?_, fun hbalanced => ?_⟩,
    balanced_of_quotations he.newline hx⟩
  · rintro ⟨x', h, -⟩
    exact balanced_of_piecesFrom hp.2 hs.2 ((formatPieces_ofList _ span).symm.trans h)
  · have hblank : Expr.ofSource (e ++ [' ']) = .ok x :=
      hread (Nat.succ_le_succ (List.length_append ▸ Nat.le_add_right _ _))
    have h := piecesFrom_interpolated span hp.2 hs.2 hfirst hblank hbalanced
    exact ⟨_, (formatPieces_ofList _ span).trans h, Expr.bare_shift _ x⟩
  · rintro ⟨x', h, -⟩
    exact balanced_of_piecesFrom hp.2 hs.2 ((ofSource_format_iff hq hbody).1 h)
  · have hlength : e.length + 1 ≤ (interpolated p e s).length + 3 := by
      simp only [interpolated, List.length_append, List.length_cons]
      omega
    have h := piecesFrom_interpolated ⟨1, 1⟩ hp.2 hs.2 hfirst (hread hlength) hbalanced
    exact ⟨_, (ofSource_format_iff hq hbody).2 h, Expr.bare_shift _ x⟩

/-- The item of `d` under the key `a`. -/
def itemExpr : Expr := .index ⟨1, 1⟩ (.name ⟨1, 1⟩ "d") (.literal ⟨1, 3⟩ (.text "a"))

theorem interpolation_iff_balanced_of_item :
    Expr.ofSource "d['a']".toList = .ok itemExpr ∧
      ∃ x', Expr.ofSource ('f' :: '"' :: (interpolated "v = ".toList "d['a']".toList ".".toList ++
          ['"'])) = .ok (.format ⟨1, 1⟩ [.text "v = ", .hole x' none, .text "."]) ∧
        x'.bare = itemExpr.bare := by
  have hitem : Expr.ofSource "d['a']".toList = .ok itemExpr := by cbv
  have h := interpolation_iff_balanced (q := '"') (p := "v = ".toList) (s := ".".toList)
    (Or.inl rfl) (by decide) hitem (by decide) (by decide)
  exact ⟨hitem, h.2.1.2 (by decide)⟩

/-- A brace in a literal is counted like any other. -/
example :
    (Expr.ofSource "'\x7d'".toList).isOk = true ∧
      (Expr.ofSource ('f' :: '"' :: (interpolated [] "'\x7d'".toList [] ++ ['"']))).isOk =
        false := by
  cbv

end Grammar

end ReactiveScript

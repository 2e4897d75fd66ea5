import ReactiveScript.Proofs.Grammar.Bounds
import ReactiveScript.Proofs.Grammar.Interpolation
import ReactiveScript.Proofs.Parts
import ReactiveScript.Proofs.Token.Spans

/-!
# Interpolations and holes

The body of a format string has interpolations, one for each hole among its pieces.  The text of an
interpolation is read by itself; the expression is then moved to the `origin` of the interpolation,
and so is the position of an error.  The origin counts the white space in front of the text in bytes.

* `Interpolation`, `Grammar.interpolations` — the interpolations of a body and where they stand.
* `Grammar.holes_of_pieces`, `Grammar.error_of_pieces` — what a body that is read, or is not, has to
  do with the texts of its interpolations.
* `Grammar.read_eq_ofSource`, `Expr.ofSource_eq` — the bound on the nesting is never reached, so that
  the interpolations of an expression are read in the way in which it is read itself.
-/

set_option autoImplicit false

namespace ReactiveScript

open Text Grammar

/-- An interpolation in the body of a format string. -/
structure Interpolation where
  /-- What stands in front of it in the body, and its opening brace. -/
  front : List Char
  /-- The white space behind the brace. -/
  blanks : List Char
  /-- The text of its expression. -/
  text : List Char
  /-- How many places its number takes. -/
  places : Option Nat

namespace Interpolation

/-- The interpolation behind a part of a body that has a text between its braces. -/
def ofFragment (front fragment : List Char) : Interpolation where
  front := front
  blanks := (splitFormat fragment).1.takeWhile isBlank
  text := trimStart (splitFormat fragment).1
  places := (splitFormat fragment).2

/-- Where the positions in an interpolation are counted from, if the format string starts at `span`:
the quote and the `f` come before the body. -/
def origin (span : Span) (i : Interpolation) : Span :=
  ⟨span.line, span.col + 2 + i.front.length + byteLength i.blanks⟩

/-- What an interpolation makes of its text: a hole with its expression, moved to where it stands,
and its number of places. -/
def Fills (read : List Char → Except SyntaxError Expr) (span : Span) (i : Interpolation)
    (hole : Expr × Option Nat) : Prop :=
  ∃ e, read i.text = .ok e ∧ hole = (e.shift (i.origin span), i.places)

theorem splitFormat_prefix (fragment : List Char) : (splitFormat fragment).1 <+: fragment := by
  rw [splitFormat]
  split
  · exact List.prefix_refl fragment
  · split
    · exact List.take_prefix _ fragment
    · exact List.prefix_refl fragment

/-- An interpolation stands where it is cut off. -/
theorem exists_append_ofFragment (front fragment : List Char) : ∃ rest,
    front ++ fragment = (ofFragment front fragment).front ++ (ofFragment front fragment).blanks ++
      (ofFragment front fragment).text ++ rest := by
  obtain ⟨rest, hrest⟩ := splitFormat_prefix fragment
  refine ⟨rest, ?_⟩
  rw [ofFragment, trimStart, List.append_assoc front, List.takeWhile_append_dropWhile,
    List.append_assoc, hrest]

end Interpolation

namespace Grammar

variable {read read' : List Char → Except SyntaxError Expr} {span : Span} {start : Nat}
  {literal front : List Char}

/-- The interpolations of the rest of a body, in the order of the text, up to a brace that closes
nothing or is never closed.  `front` is what stands in front of it in the body. -/
def interpolationsFrom (front : List Char) (cs : List Char) : List Interpolation :=
  match cs with
  | [] => []
  | '{' :: '{' :: cs => interpolationsFrom (front ++ ['{', '{']) cs
  | '}' :: '}' :: cs => interpolationsFrom (front ++ ['}', '}']) cs
  | '}' :: _ => []
  | '{' :: cs =>
    match holeLength 1 cs with
    | none => []
    | some n => .ofFragment (front ++ ['{']) (cs.take n) ::
        interpolationsFrom (front ++ '{' :: cs.take (n + 1)) (cs.drop (n + 1))
  | c :: cs => interpolationsFrom (front ++ [c]) cs
termination_by cs.length
decreasing_by all_goals simp_all only [List.length_cons, List.length_drop]; omega

/-- The interpolations of the body of a format string. -/
def interpolations (raw : String) : List Interpolation := interpolationsFrom [] raw.toList

theorem interpolationsFrom_open {cs : List Char} (h : ∀ cs', cs ≠ '{' :: cs') {n : Nat}
    (hn : holeLength 1 cs = some n) : interpolationsFrom front ('{' :: cs) =
      .ofFragment (front ++ ['{']) (cs.take n) ::
        interpolationsFrom (front ++ '{' :: cs.take (n + 1)) (cs.drop (n + 1)) := by
  rw [interpolationsFrom, hn]
  exact h

theorem interpolationsFrom_cons {c : Char} (ho : c ≠ '{') (hc : c ≠ '}') (cs : List Char) :
    interpolationsFrom front (c :: cs) = interpolationsFrom (front ++ [c]) cs := by
  rw [interpolationsFrom]
  · exact fun _ h _ => ho h
  · exact fun _ h _ => hc h
  · exact hc
  · exact ho

/-- An interpolation is what stands in the body between two braces. -/
theorem exists_of_mem_interpolationsFrom {cs : List Char} {i : Interpolation}
    (hi : i ∈ interpolationsFrom front cs) : ∃ before fragment rest,
      i = .ofFragment before fragment ∧ front ++ cs = before ++ fragment ++ rest := by
  fun_induction interpolationsFrom front cs with
  | case1 front => cases hi
  | case2 front cs ih =>
    obtain ⟨before, fragment, rest, hi, heq⟩ := ih hi
    exact ⟨before, fragment, rest, hi, by rw [← heq]; simp⟩
  | case3 front cs ih =>
    obtain ⟨before, fragment, rest, hi, heq⟩ := ih hi
    exact ⟨before, fragment, rest, hi, by rw [← heq]; simp⟩
  | case4 front cs hne => cases hi
  | case5 front cs hne hnone => cases hi
  | case6 front cs hne n hsome ih =>
    rcases List.mem_cons.1 hi with rfl | hi
    · refine ⟨front ++ ['{'], cs.take n, cs.drop n, rfl, ?_⟩
      rw [List.append_assoc (front ++ ['{']), List.take_append_drop, List.append_assoc,
        List.singleton_append]
    · obtain ⟨before, fragment, rest, hi, heq⟩ := ih hi
      exact ⟨before, fragment, rest, hi, by rw [← heq]; simp⟩
  | case7 front c cs _ _ hc ho ih =>
    obtain ⟨before, fragment, rest, hi, heq⟩ := ih hi
    exact ⟨before, fragment, rest, hi, by rw [← heq]; simp⟩

theorem byteLength_append (cs us : List Char) :
    byteLength (cs ++ us) = byteLength cs + byteLength us := by
  rw [byteLength, List.foldl_append, foldl_byteLength]
  rfl

/-- What an interpolation is read as. -/
theorem hole_eq (hstart : front.length = start) (fragment : List Char) :
    hole read span start fragment =
      if trimEnd (Interpolation.ofFragment front fragment).text = [] then
        .error ⟨.emptyInterpolation, span⟩
      else
        match read (Interpolation.ofFragment front fragment).text with
        | .ok e => .ok (.hole (e.shift ((Interpolation.ofFragment front fragment).origin span))
            (Interpolation.ofFragment front fragment).places)
        | .error err => .error ⟨.interpolation err.cause,
            ((Interpolation.ofFragment front fragment).origin span).within err.span⟩ := by
  have hlead : byteLength (splitFormat fragment).1 -
      byteLength (trimStart (splitFormat fragment).1) =
        byteLength (Interpolation.ofFragment front fragment).blanks := by
    have hsplit := byteLength_append ((splitFormat fragment).1.takeWhile isBlank)
      ((splitFormat fragment).1.dropWhile isBlank)
    rw [List.takeWhile_append_dropWhile] at hsplit
    rw [hsplit, trimStart, Nat.add_sub_cancel]
    rfl
  rw [hole]
  dsimp only
  rw [hlead, ← hstart]
  rfl

theorem holes_literalPiece (literal : List Char) (ps : List Piece) :
    Piece.holes (literalPiece literal ++ ps) = Piece.holes ps := by
  rw [literalPiece]
  split <;> rfl

/-- **The holes of a body that is read are those of its interpolations**, in the same order. -/
theorem holes_of_piecesFrom {cs : List Char} {ps : List Piece} (hstart : front.length = start)
    (h : piecesFrom read span start literal cs = .ok ps) :
    List.Forall₂ (Interpolation.Fills read span) (interpolationsFrom front cs) (Piece.holes ps) := by
  fun_induction piecesFrom read span start literal cs generalizing front ps with
  | case1 start literal =>
    cases h
    rw [interpolationsFrom, ← List.append_nil (literalPiece literal), holes_literalPiece]
    exact .nil
  | case2 start literal cs ih =>
    rw [interpolationsFrom]
    exact ih (by rw [List.length_append, hstart]; rfl) h
  | case3 start literal cs ih =>
    rw [interpolationsFrom]
    exact ih (by rw [List.length_append, hstart]; rfl) h
  | case4 start literal cs hne => cases h
  | case5 start literal cs hne hnone => cases h
  | case6 start literal cs hne n hsome ih =>
    obtain ⟨piece, hpiece, h⟩ := exists_of_bind h
    obtain ⟨rest, hrest, h⟩ := exists_of_bind h
    cases h
    have hlength := holeLength_lt hsome
    have hopen : (front ++ ['{']).length = start + 1 := by rw [List.length_append, hstart]; rfl
    rw [interpolationsFrom_open hne hsome]
    rw [hole_eq hopen] at hpiece
    split at hpiece
    · cases hpiece
    · split at hpiece
      · rename_i e he
        cases hpiece
        rw [holes_literalPiece]
        refine .cons ⟨e, he, rfl⟩ (ih ?_ hrest)
        rw [List.length_append, hstart, List.length_cons, List.length_take]
        omega
      · cases hpiece
  | case7 start literal c cs _ _ hc ho ih =>
    rw [interpolationsFrom_cons ho hc]
    exact ih (by rw [List.length_append, hstart]; rfl) h

/-- **A body that is not read is wrong in its braces or in the text of an interpolation.**  Where it
is wrong is counted from the start of the format string or from the origin of the interpolation. -/
theorem error_of_piecesFrom {cs : List Char} {err : SyntaxError} (hstart : front.length = start)
    (h : piecesFrom read span start literal cs = .error err) :
    (err.span = span ∧ err.cause.Plain) ∨ ∃ i ∈ interpolationsFrom front cs, ∃ e,
      read i.text = .error e ∧ err = ⟨.interpolation e.cause, (i.origin span).within e.span⟩ := by
  fun_induction piecesFrom read span start literal cs generalizing front with
  | case1 start literal => cases h
  | case2 start literal cs ih =>
    rw [interpolationsFrom]
    exact ih (by rw [List.length_append, hstart]; rfl) h
  | case3 start literal cs ih =>
    rw [interpolationsFrom]
    exact ih (by rw [List.length_append, hstart]; rfl) h
  | case4 start literal cs hne =>
    cases h
    exact Or.inl ⟨rfl, fun _ => SyntaxError.Cause.noConfusion⟩
  | case5 start literal cs hne hnone =>
    cases h
    exact Or.inl ⟨rfl, fun _ => SyntaxError.Cause.noConfusion⟩
  | case6 start literal cs hne n hsome ih =>
    have hlength := holeLength_lt hsome
    have hopen : (front ++ ['{']).length = start + 1 := by rw [List.length_append, hstart]; rfl
    rw [interpolationsFrom_open hne hsome]
    rcases error_of_bind h with hpiece | ⟨piece, -, h⟩
    · rw [hole_eq hopen] at hpiece
      split at hpiece
      · cases hpiece
        exact Or.inl ⟨rfl, fun _ => SyntaxError.Cause.noConfusion⟩
      · split at hpiece
        · cases hpiece
        · rename_i e he
          cases hpiece
          exact Or.inr ⟨_, List.mem_cons_self .., e, he, rfl⟩
    · rcases error_of_bind h with hrest | ⟨rest, -, h⟩
      · have hbehind : (front ++ '{' :: cs.take (n + 1)).length = start + (n + 2) := by
          rw [List.length_append, hstart, List.length_cons, List.length_take]
          omega
        rcases ih hbehind hrest with hplain | ⟨i, hi, herror⟩
        · exact Or.inl hplain
        · exact Or.inr ⟨i, List.mem_cons_of_mem _ hi, herror⟩
      · cases h
  | case7 start literal c cs _ _ hc ho ih =>
    rw [interpolationsFrom_cons ho hc]
    exact ih (by rw [List.length_append, hstart]; rfl) h

/-- A body is read in the same way if the texts of its interpolations are. -/
theorem piecesFrom_congr {cs : List Char}
    (h : ∀ i ∈ interpolationsFrom front cs, read i.text = read' i.text) :
    piecesFrom read span start literal cs = piecesFrom read' span start literal cs := by
  fun_induction piecesFrom read span start literal cs generalizing front with
  | case1 start literal => rw [piecesFrom]
  | case2 start literal cs ih =>
    rw [interpolationsFrom] at h
    rw [piecesFrom]
    exact ih h
  | case3 start literal cs ih =>
    rw [interpolationsFrom] at h
    rw [piecesFrom]
    exact ih h
  | case4 start literal cs hne => rw [piecesFrom_lone hne]
  | case5 start literal cs hne hnone => rw [piecesFrom_open hne, hnone]
  | case6 start literal cs hne n hsome ih =>
    rw [interpolationsFrom_open hne hsome] at h
    obtain ⟨hfirst, hmore⟩ := List.forall_mem_cons.1 h
    rw [piecesFrom_open hne, hsome]
    refine bind_congr_ok ?_ fun piece _ => bind_congr_ok (ih hmore) fun _ _ => rfl
    rw [hole, hole]
    dsimp only
    rw [show read (trimStart (splitFormat (cs.take n)).1) = _ from hfirst]
    rfl
  | case7 start literal c cs _ _ hc ho ih =>
    rw [interpolationsFrom_cons ho hc] at h
    rw [piecesFrom_cons ho hc]
    exact ih h

/-! ## Format strings -/

/-- The interpolations of a body stand in it. -/
theorem exists_body_eq {raw : String} {i : Interpolation} (hi : i ∈ interpolations raw) :
    ∃ rest, raw.toList = i.front ++ i.blanks ++ i.text ++ rest := by
  obtain ⟨before, fragment, rest, rfl, heq⟩ := exists_of_mem_interpolationsFrom hi
  obtain ⟨more, hmore⟩ := Interpolation.exists_append_ofFragment before fragment
  exact ⟨more ++ rest, by rw [← List.append_assoc, ← hmore, ← heq, List.nil_append]⟩

/-- The text of an interpolation is no longer than the body. -/
theorem length_text_le {raw : String} {i : Interpolation} (hi : i ∈ interpolations raw) :
    i.text.length ≤ raw.toList.length := by
  obtain ⟨rest, heq⟩ := exists_body_eq hi
  rw [heq]
  simp only [List.length_append]
  omega

/-- There is only white space between the brace and the text. -/
theorem isBlank_of_mem_blanks {raw : String} {i : Interpolation} (hi : i ∈ interpolations raw)
    {c : Char} (hc : c ∈ i.blanks) : isBlank c = true := by
  obtain ⟨before, fragment, rest, rfl, -⟩ := exists_of_mem_interpolationsFrom hi
  exact List.mem_takeWhile_imp hc

/-- A text is read in the same way if the texts of the interpolations in it are: these are
shorter. -/
theorem wholeExpression_congr_text {cs : List Char}
    (h : ∀ us : List Char, us.length < cs.length → read us = read' us) :
    (Token.ofSource cs >>= wholeExpression (pieces read)) =
      (Token.ofSource cs >>= wholeExpression (pieces read')) := by
  refine bind_congr_ok rfl fun ts hts => wholeExpression_congr fun raw s hmem => ?_
  obtain ⟨u, q, rest, -, -, hcs, -⟩ := Token.exists_format_of_mem hts hmem
  have hlength := congrArg List.length hcs
  simp only [List.length_append, List.length_cons] at hlength
  refine piecesFrom_congr fun i (hi : i ∈ interpolations raw) => h i.text ?_
  have := length_text_le hi
  omega

/-- **The bound on the nesting is never reached.** -/
theorem read_eq_ofSource {n : Nat} {cs : List Char} (hn : cs.length < n) :
    Grammar.read n cs = Expr.ofSource cs := by
  suffices h : ∀ {n m : Nat} {cs : List Char}, cs.length < n → cs.length < m →
      Grammar.read n cs = Grammar.read m cs from h hn (Nat.lt_succ_self _)
  clear hn
  intro n m cs hn hm
  induction n generalizing m cs with
  | zero => exact absurd hn (Nat.not_lt_zero _)
  | succ n ih =>
    cases m with
    | zero => exact absurd hm (Nat.not_lt_zero _)
    | succ m => exact wholeExpression_congr_text fun us hus => ih (by omega) (by omega)

/-- **The interpolations of an expression are read as it is read itself.** -/
theorem ofSource_eq (cs : List Char) :
    Expr.ofSource cs = (Token.ofSource cs >>= wholeExpression formatPieces) :=
  wholeExpression_congr_text fun _ hus => read_eq_ofSource hus

/-- **The holes of a format string are those of its interpolations.** -/
theorem holes_of_formatPieces {raw : String} {ps : List Piece}
    (h : formatPieces raw span = .ok ps) :
    List.Forall₂ (Interpolation.Fills Expr.ofSource span) (interpolations raw) (Piece.holes ps) :=
  holes_of_piecesFrom rfl h

/-- **A format string is wrong in its braces or in an interpolation.** -/
theorem error_of_formatPieces {raw : String} {err : SyntaxError}
    (h : formatPieces raw span = .error err) :
    (err.span = span ∧ err.cause.Plain) ∨ ∃ i ∈ interpolations raw, ∃ e,
      Expr.ofSource i.text = .error e ∧
        err = ⟨.interpolation e.cause, (i.origin span).within e.span⟩ :=
  error_of_piecesFrom rfl h

end Grammar

end ReactiveScript

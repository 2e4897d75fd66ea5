import ReactiveScript.Proofs.Grammar.Restored

/-!
# Printed format strings

The body of a printed format string is taken apart again: its braces are doubled where they are
literal, an interpolated expression ends at the brace that closes it, and a number of places stands
behind a colon.

* `Grammar.exists_read_print` — a printed expression without quotes is read again.
* `Grammar.splitFormat_interpolable`, `Grammar.splitFormat_places` — an interpolation is split at
  its number of places.
* `Grammar.exists_piecesFrom_print` — printed pieces are taken apart again.
* `Grammar.readsAgain_of_printable` — printed format strings are read again.
* `Grammar.exists_expression` — the tokens of a printed expression spell it again.
-/

set_option autoImplicit false

namespace ReactiveScript

namespace Grammar

open ReactiveScript.Expr Text

/-! ## Interpolated expressions -/

theorem append_ends {us : List Located} {last : Span} :
    us ++ Token.ends last = us ++ [⟨.newline, last⟩] ++ [⟨.finish, last⟩] := by
  rw [List.append_assoc]
  rfl

/-- A part without quotes is no format string. -/
theorem readsAgain_of_inset {y : Expr} (h : y.Inset) (format : FormatParser) :
    y.Proper ∧ ReadsAgain format y := by
  refine ⟨h.1.1, ?_⟩
  cases y with
  | format => exact h.2.elim
  | _ => trivial

/-- **A printed expression without quotes is read again.** -/
theorem exists_read_print {e : Expr} (h : All Inset e) (n : Nat) :
    ∃ e', Grammar.read (n + 1) e.print.toList = .ok e' ∧ e'.bare = e.bare := by
  have hprintable : e.Printable := fun y hy => (h y hy).1
  obtain ⟨c, cs, hcons, hc, -⟩ := exists_cons_print e hprintable
  have hgap : ∀ d ∈ e.print.toList.head?, Token.isGap d = false := by
    rw [hcons]
    rintro d ⟨⟩
    exact hc.isGap
  have hline : '\n' ∉ e.print.toList := fun hmem => ((interpolable_print e h).plain _ hmem).2.1 rfl
  obtain ⟨us, last, hsource, hus⟩ :=
    (writes_print e hprintable).ofSource hline hgap (by rw [hcons]; exact List.cons_ne_nil _ _)
  have hsuits : Suits (pieces (Grammar.read n)) Inset := fun y hy =>
    readsAgain_of_inset (hy y (mem_parts_self y)) _
  obtain ⟨e', he', hbare⟩ := (restores_tokens hsuits e h us hus).expression
  refine ⟨e', bind_eq_ok hsource ?_, hbare⟩
  rw [append_ends]
  exact wholeExpression_of_whole ⟨us, [⟨.newline, last⟩], rfl, by simp, he'⟩ last

/-! ## Numbers of places -/

section Split

variable {cs : List Char}

theorem splitFormat_of_not_mem (h : ':' ∉ cs) : splitFormat cs = (cs, none) := by
  have htail : cs.reverse.takeWhile (· ≠ ':') = cs.reverse :=
    List.takeWhile_eq_self_iff.2 fun c hc =>
      decide_eq_true fun heq => h (heq ▸ List.mem_reverse.1 hc)
  rw [splitFormat, htail, if_pos List.length_reverse]

theorem splitFormat_colon {front back : List Char} (h : ':' ∉ back) :
    splitFormat (front ++ ':' :: back) = match readFormat back with
      | some places => (front, some places)
      | none => (front ++ ':' :: back, none) := by
  have hall : ∀ c ∈ back.reverse, decide (c ≠ ':') = true := fun c hc =>
    decide_eq_true fun heq => h (heq ▸ List.mem_reverse.1 hc)
  have htail : (front ++ ':' :: back).reverse.takeWhile (· ≠ ':') = back.reverse := by
    rw [List.reverse_append, List.reverse_cons, List.append_assoc,
      List.takeWhile_append_of_pos hall, List.singleton_append,
      List.takeWhile_cons_of_neg (by decide), List.append_nil]
  have hlength : (front ++ ':' :: back).length = front.length + (back.length + 1) := by simp
  have htake : front.length + (back.length + 1) - back.length - 1 = front.length := by omega
  rw [splitFormat, htail, List.length_reverse, List.reverse_reverse, if_neg (by omega), hlength]
  cases readFormat back with
  | none => rfl
  | some n => rw [htake, List.take_left]

/-- Behind the last colon of a text there is a blank. -/
theorem ColonsSpaced.head {front back : List Char} (h : ColonsSpaced (front ++ ':' :: back)) :
    back.head? = some ' ' := by
  induction front with
  | nil => exact h.1 rfl
  | cons c front ih => exact ih h.2

/-- An expression that can stand in an interpolation is not split. -/
theorem splitFormat_interpolable (h : Interpolable cs) : splitFormat cs = (cs, none) := by
  by_cases hcolon : ':' ∈ cs
  · obtain ⟨back, front, hreverse, hback⟩ := List.eq_append_cons_of_mem (List.mem_reverse.2 hcolon)
    obtain rfl : cs = front.reverse ++ ':' :: back.reverse := by
      rw [← List.reverse_reverse cs, hreverse]
      simp
    obtain ⟨more, hmore⟩ := List.head?_eq_some_iff.1 h.colons.head
    have hnone : readFormat back.reverse = none := by
      rw [hmore]
      rfl
    rw [splitFormat_colon fun hmem => hback (List.mem_reverse.1 hmem), hnone]
  · exact splitFormat_of_not_mem hcolon

/-- How a number of places is printed. -/
def placesText (n : Nat) : List Char := '.' :: ((toString n).toList ++ ['f'])

theorem toList_placesText {n : Nat} {c : Char} (h : c ∈ placesText n) :
    c = '.' ∨ c.isDigit = true ∨ c = 'f' := by
  simp only [placesText, List.mem_cons, List.mem_append, List.not_mem_nil, or_false] at h
  refine h.imp_right (Or.imp_left fun hc => ?_)
  rw [toList_toString] at hc
  exact Number.isDigit_toDigits hc

/-- Digits that fit sixty-four bits are a number of places. -/
theorem readPlaces_digits {ds : List Char} (hne : ds ≠ []) (hds : ∀ c ∈ ds, c.isDigit = true)
    (h : Number.ofDigits ds < 2 ^ 64) : readPlaces ds = some (Number.ofDigits ds) := by
  have hall : ds ≠ [] ∧ ds.all Char.isDigit = true ∧ Number.ofDigits ds < Nat.pow 2 64 :=
    ⟨hne, List.all_eq_true.2 hds, h⟩
  rw [readPlaces]
  · exact if_pos hall
  · rintro ds' rfl
    have hplus := hds '+' (List.mem_cons_self ..)
    cases hplus

theorem readPlaces_toString {n : Nat} (h : n < 2 ^ 64) :
    readPlaces (toString n).toList = some n := by
  rw [toList_toString, readPlaces_digits, Number.ofDigits_toDigits]
  · exact fun hnil => Nat.length_toDigits_pos.ne' (List.length_eq_zero_iff.2 hnil)
  · exact fun c hc => Number.isDigit_toDigits hc
  · rwa [Number.ofDigits_toDigits]

theorem readFormat_placesText {n : Nat} (h : n < 2 ^ 64) : readFormat (placesText n) = some n := by
  rw [placesText, readFormat, List.getLast?_concat, if_pos rfl, List.dropLast_concat,
    readPlaces_toString h]

theorem splitFormat_places {n : Nat} (h : n < 2 ^ 64) (cs : List Char) :
    splitFormat (cs ++ ':' :: placesText n) = (cs, some n) := by
  have hcolon : ':' ∉ placesText n := by
    intro hmem
    rcases toList_placesText hmem with heq | hdigit | heq
    · cases heq
    · cases hdigit
    · cases heq
  rw [splitFormat_colon hcolon, readFormat_placesText h]

end Split

/-! ## Interpolations -/

/-- How an interpolation is printed, without its braces. -/
def holeText (e : Expr) : Option Nat → List Char
  | none => e.print.toList
  | some n => e.print.toList ++ ':' :: placesText n

theorem toList_printPieces_hole (e : Expr) (places : Option Nat) (ps : List Piece) :
    (printPieces (.hole e places :: ps)).toList =
      '{' :: (holeText e places ++ '}' :: (printPieces ps).toList) := by
  cases places <;> simp [printPieces, holeText, placesText]

section Hole

variable {e : Expr} {places : Option Nat}

theorem splitFormat_holeText (h : All Inset e) (hplaces : ∀ n ∈ places, n < 2 ^ 64) :
    splitFormat (holeText e places) = (e.print.toList, places) := by
  cases places with
  | none => exact splitFormat_interpolable (interpolable_print e h)
  | some n => exact splitFormat_places (hplaces n rfl) _

theorem balanced_holeText (h : All Inset e) : Text.Balanced (holeText e places) := by
  have hprint := (interpolable_print e h).balanced
  cases places with
  | none => exact hprint
  | some n =>
    have hplaces : Text.Balanced (':' :: placesText n) := by
      refine balanced_of_plain (List.forall_mem_cons.2 ⟨by decide, fun c hc => ?_⟩)
      rcases toList_placesText hc with rfl | hdigit | rfl
      · decide
      · exact (inert_of_isDigit hdigit).1
      · decide
    rw [holeText, Text.Balanced, depthAfter_append, hprint, Option.bind_some, hplaces]

theorem isBlank_of_leads {c : Char} (h : Leads c) : isBlank c = false := by
  rcases h with hname | rfl | rfl | rfl | rfl
  · exact Token.isBlank_of_inName hname
  all_goals decide

/-- **A printed interpolation stands for its expression and its number of places.** -/
theorem exists_hole_print {read : List Char → Except SyntaxError Expr} (h : All Inset e)
    (hplaces : ∀ n ∈ places, n < 2 ^ 64)
    (hread : ∃ e', read e.print.toList = .ok e' ∧ e'.bare = e.bare)
    (span : Span) (start : Nat) :
    ∃ e', hole read span start (holeText e places) = .ok (.hole e' places) ∧ e'.bare = e.bare := by
  obtain ⟨e', he', hbare⟩ := hread
  obtain ⟨c, cs, hcons, hc, -⟩ := exists_cons_print e fun y hy => (h y hy).1
  have htrim : trimStart e.print.toList = e.print.toList := by
    rw [hcons, trimStart, List.dropWhile_cons_of_neg (by simp [isBlank_of_leads hc])]
  have hne : trimEnd e.print.toList ≠ [] := hcons ▸ trimEnd_ne_nil (isBlank_of_leads hc) cs
  rw [hole, splitFormat_holeText h hplaces]
  dsimp only
  rw [htrim, if_neg hne, he']
  exact ⟨_, rfl, (bare_shift _ e').trans hbare⟩

end Hole

/-! ## Literal text -/

/-- What is collected of one character of the literal text of a printed format string. -/
def keptChar (c : Char) : List Char :=
  if c = '\\' then ['\\', '\\']
  else if c = '"' then ['\\', '"']
  else if c = '\n' then ['\\', 'n']
  else [c]

theorem unescape_keptChar (c : Char) (more : List Char) :
    Token.unescape (keptChar c ++ more) = c :: Token.unescape more := by
  rw [keptChar]
  split_ifs with hb hq hn
  · subst hb
    simp [Token.unescape]
  · subst hq
    simp [Token.unescape]
  · subst hn
    simp [Token.unescape]
  · rw [List.singleton_append, Token.unescape]
    exact fun _ _ heq _ => hb heq

theorem unescape_kept (cs : List Char) : Token.unescape (cs.flatMap keptChar) = cs := by
  induction cs with
  | nil => rfl
  | cons c cs ih => rw [List.flatMap_cons, unescape_keptChar, ih]

section Pieces

variable (read : List Char → Except SyntaxError Expr) (span : Span) (literal : List Char)

theorem exists_piecesFrom_formatChar (c : Char) (start : Nat) (more : List Char) :
    ∃ start', piecesFrom read span start literal (formatChar c ++ more) =
      piecesFrom read span start' ((keptChar c).reverse ++ literal) more := by
  rw [formatChar, keptChar]
  split_ifs with hb hq hn ho hc
  · exact ⟨_, (piecesFrom_cons (by decide) (by decide) _).trans
      (piecesFrom_cons (by decide) (by decide) _)⟩
  · exact ⟨_, (piecesFrom_cons (by decide) (by decide) _).trans
      (piecesFrom_cons (by decide) (by decide) _)⟩
  · exact ⟨_, (piecesFrom_cons (by decide) (by decide) _).trans
      (piecesFrom_cons (by decide) (by decide) _)⟩
  · subst ho
    exact ⟨start + 2, by rw [List.cons_append, List.cons_append, piecesFrom]; rfl⟩
  · subst hc
    exact ⟨start + 2, by rw [List.cons_append, List.cons_append, piecesFrom]; rfl⟩
  · exact ⟨_, piecesFrom_cons ho hc _⟩

/-- The literal text of a printed format string is collected. -/
theorem exists_piecesFrom_formatText (cs : List Char) (start : Nat) (more : List Char) :
    ∃ start', piecesFrom read span start literal (cs.flatMap formatChar ++ more) =
      piecesFrom read span start' ((cs.flatMap keptChar).reverse ++ literal) more := by
  induction cs generalizing start literal with
  | nil => exact ⟨start, rfl⟩
  | cons c cs ih =>
    obtain ⟨start', hchar⟩ :=
      exists_piecesFrom_formatChar read span literal c start (cs.flatMap formatChar ++ more)
    obtain ⟨start'', htext⟩ := ih ((keptChar c).reverse ++ literal) start'
    refine ⟨start'', ?_⟩
    rw [List.flatMap_cons, List.append_assoc, hchar, htext, List.flatMap_cons, List.reverse_append,
      List.append_assoc]

variable {read}

theorem literalPiece_kept {s : String} (hs : s ≠ "") :
    literalPiece (s.toList.flatMap keptChar).reverse = [.text s] := by
  have hne : (s.toList.flatMap keptChar).reverse ≠ [] := by
    intro hnil
    have hempty := unescape_kept s.toList
    rw [List.reverse_eq_nil_iff.1 hnil] at hempty
    exact hs (String.toList_eq_nil_iff.1 hempty.symm)
  rw [literalPiece, if_neg hne, List.reverse_reverse, unescape_kept, String.ofList_toList]

/-! ## Pieces -/

/-- A piece without its spans. -/
def barePieces (ps : List Piece) : List Piece := mapPieces (fun _ => .none) id ps

/-- An interpolated expression is read again, where it has no quotes and no brace in front. -/
def HoleReadsAgain (read : List Char → Except SyntaxError Expr) (h : Expr × Option Nat) : Prop :=
  h.1.opensDict = false ∧ All Inset h.1 ∧ ∃ e', read h.1.print.toList = .ok e' ∧ e'.bare = h.1.bare

/-- **Printed pieces are taken apart again.**  Literal text that has been collected in front of them
becomes a piece of its own, so that there must be none if they start with literal text. -/
theorem exists_piecesFrom_print {ps : List Piece} (hps : Piece.WellFormed ps)
    (hholes : ∀ h ∈ Piece.holes ps, HoleReadsAgain read h)
    (hliteral : Piece.startsText ps = true → literal = []) (start : Nat) :
    ∃ ps', piecesFrom read span start literal (printPieces ps).toList =
      .ok (literalPiece literal ++ ps') ∧ barePieces ps' = barePieces ps := by
  induction ps generalizing start literal with
  | nil => exact ⟨[], by rw [List.append_nil]; exact piecesFrom_nil, rfl⟩
  | cons p ps ih =>
    cases p with
    | text s =>
      obtain rfl := hliteral rfl
      obtain ⟨hs, hapart, hps⟩ := hps
      obtain ⟨start', hcollect⟩ :=
        exists_piecesFrom_formatText read span [] s.toList start (printPieces ps).toList
      obtain ⟨ps', hps', hbare⟩ := ih (s.toList.flatMap keptChar).reverse hps hholes
        (fun hstart => by rw [hapart] at hstart; cases hstart) start'
      refine ⟨.text s :: ps', ?_, congrArg (Piece.text s :: ·) hbare⟩
      rw [printPieces, printFormatText, String.toList_append, String.toList_ofList, hcollect,
        List.append_nil, hps', literalPiece_kept hs]
      rfl
    | hole e places =>
      obtain ⟨⟨hdict, he, hread⟩, hholes⟩ : HoleReadsAgain read (e, places) ∧
          ∀ h ∈ Piece.holes ps, HoleReadsAgain read h := List.forall_mem_cons.1 hholes
      obtain ⟨hplaces, hps⟩ := hps
      obtain ⟨e', hhole, hbare⟩ := exists_hole_print he hplaces hread span (start + 1)
      obtain ⟨ps', hps', hbares⟩ := ih [] hps hholes (fun _ => rfl)
        (start + (holeText e places).length + 2)
      have hopen : ∀ cs, holeText e places ++ '}' :: (printPieces ps).toList ≠ '{' :: cs := by
        obtain ⟨c, cs, hcons, -, hbrace⟩ := exists_cons_print e fun y hy => (he y hy).1
        intro cs' heq
        refine hbrace hdict ?_
        cases places <;> rw [holeText, hcons] at heq <;> exact (List.cons.inj heq).1
      have hend : holeLength 1 (holeText e places ++ '}' :: (printPieces ps).toList) =
          some (holeText e places).length := by
        rw [holeLength_append (balanced_holeText he), holeLength_one_of_closes (by decide),
          Option.map_some, Nat.zero_add]
      refine ⟨.hole e' places :: ps', ?_, ?_⟩
      · rw [toList_printPieces_hole, piecesFrom_open hopen, hend]
        dsimp only
        rw [List.take_left, hhole, List.drop_length_add_append]
        exact bind_eq_ok rfl (bind_eq_ok hps' rfl)
      · exact congrArg₂ (fun e ps => Piece.hole e places :: ps) hbare hbares

end Pieces

/-- **A printed format string is read again.** -/
theorem readsAgain_of_printable {e : Expr} (h : e.Printable) :
    e.Proper ∧ ReadsAgain formatPieces e := by
  refine ⟨h.self.1, ?_⟩
  cases e with
  | format s ps =>
    intro span
    have hholes : ∀ h ∈ Piece.holes ps, HoleReadsAgain Expr.ofSource h := fun hole hhole =>
      ⟨(h.self.2 hole hhole).1, h.inset hole hhole, exists_read_print (h.inset hole hhole) _⟩
    obtain ⟨ps', hps', hbare⟩ :=
      exists_piecesFrom_print span [] h.self.1 hholes (fun _ => rfl) 0
    exact ⟨ps', hps', congrArg (Expr.format .none) hbare⟩
  | _ => trivial

/-- **The tokens of a printed expression spell it again**, up to its spans. -/
theorem exists_expression {e : Expr} (h : e.Printable) {us : List Located}
    (hus : us.map Located.token = e.tokens) :
    ∃ e', Expression formatPieces us e' ∧ e'.bare = e.bare :=
  (restores_tokens (fun _ hy => readsAgain_of_printable hy) e h us hus).expression

end Grammar

end ReactiveScript

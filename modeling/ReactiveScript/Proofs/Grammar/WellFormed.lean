import ReactiveScript.Proofs.Grammar.Holes
import ReactiveScript.Proofs.Grammar.Origins
import ReactiveScript.Proofs.Token.Stream
import ReactiveScript.Proofs.Token.Writing

/-!
# What expressions of a text are like

Not every syntax tree comes from a text.  In an expression that does, names are words, numbers have
no sign, the keywords of a call are different, and the literal texts of a format string are not
empty and stand apart.

* `Token.WellFormed` — what the tokens of a text are like.
* `Expr.WellFormed` — what an expression is like.
* `Expr.wellFormed_of_ofSource` — every expression that is read is well formed.
-/

set_option autoImplicit false

namespace ReactiveScript

/-! ## Tokens -/

namespace Token

/-- A token that can be scanned: names are words, and numbers have no sign. -/
def WellFormed : Token → Prop
  | .name s => IsWord s
  | .number x => Number.Unsigned x
  | _ => True

theorem wellFormed_of_munchWord {c : Char} (hc : startsName c = true) {cs : List Char} {t : Token}
    {n : Nat} (h : munchWord c cs = (.token t, n)) : t.WellFormed := by
  rw [munchWord] at h
  split at h
  · cases h
    trivial
  · rename_i hfree
    cases h
    exact ⟨⟨c, _, String.toList_ofList, hc, fun d hd => List.mem_takeWhile_imp hd⟩, hfree⟩

theorem wellFormed_of_munch {c : Char} {cs : List Char} {t : Token} {n : Nat}
    (h : munch c cs = (.token t, n)) : t.WellFormed := by
  rw [munch.eq_def] at h
  split at h
  · cases h
  split at h
  · cases h
  split at h
  · rw [munchText] at h
    split at h
    rename_i body closed hbody
    cases closed <;> cases h
    trivial
  split at h
  · cases h
    cases hread : Number.readMagnitude ((c :: cs).take (numberLength (c :: cs))) with
    | none => exact Or.inr ⟨_, _, rfl⟩
    | some x => exact Number.unsigned_readMagnitude hread
  split at h
  · rename_i hname
    split at h
    · split at h
      · rw [munchFormat] at h
        split at h
        rename_i body closed hbody
        cases closed <;> cases h
        trivial
      · exact wellFormed_of_munchWord hname h
    · exact wellFormed_of_munchWord hname h
  · rw [munchMark.eq_def] at h
    dsimp only at h
    split at h
    case h_6 | h_7 | h_8 | h_9 => split at h <;> cases h <;> trivial
    all_goals
      cases h
      try trivial

theorem wellFormed_of_isLayout {t : Token} (h : t.isLayout = true) : t.WellFormed := by
  cases t <;> trivial

/-- **The tokens of a text are well formed.** -/
theorem wellFormed_of_ofSource {cs : List Char} {ts : List Located} (h : ofSource cs = .ok ts) :
    ∀ t ∈ ts, t.token.WellFormed := by
  intro t ht
  cases hlayout : t.token.isLayout with
  | true => exact wellFormed_of_isLayout hlayout
  | false =>
    obtain ⟨_, _, _, _, -, hmunch, -⟩ := (laidOut_of_ofSource h).located t ht hlayout
    exact wellFormed_of_munch hmunch

end Token

/-! ## Expressions -/

/-- A value that can be written as a literal. -/
def Value.Literal : Value → Prop
  | .null | .bool _ | .text _ => True
  | .number x => Number.Unsigned x
  | _ => False

namespace Piece

/-- Whether some pieces start with literal text. -/
def startsText : List Piece → Bool
  | .text _ :: _ => true
  | _ => false

/-- The literal texts of a format string are not empty and do not stand side by side, and numbers of
places fit sixty-four bits. -/
def WellFormed : List Piece → Prop
  | [] => True
  | .text s :: ps => s ≠ "" ∧ startsText ps = false ∧ WellFormed ps
  | .hole _ places :: ps => (∀ n ∈ places, n < 2 ^ 64) ∧ WellFormed ps

end Piece

namespace Expr

open Token

section All

variable (P : Expr → Prop)

/-- All parts of an expression are as `P` says. -/
def All (e : Expr) : Prop := ∀ y ∈ e.parts, P y

variable {P} {s : Span} {e l r : Expr}

theorem all_literal {v : Value} : All P (.literal s v) ↔ P (.literal s v) := by
  simp [All, parts]

theorem all_name {n : String} : All P (.name s n) ↔ P (.name s n) := by simp [All, parts]

theorem all_format {ps : List Piece} : All P (.format s ps) ↔
    P (.format s ps) ∧ ∀ h ∈ Piece.holes ps, All P h.1 := by
  simp only [All, parts, List.forall_mem_cons, mem_pieceParts]
  exact and_congr_right fun _ => ⟨fun h hole hhole y hy => h y ⟨hole, hhole, hy⟩,
    fun h y ⟨hole, hhole, hy⟩ => h hole hhole y hy⟩

theorem all_list {es : List Expr} : All P (.list s es) ↔ P (.list s es) ∧ ∀ e ∈ es, All P e := by
  simp only [All, parts, List.forall_mem_cons, mem_allParts]
  exact and_congr_right fun _ => ⟨fun h e he y hy => h y ⟨e, he, hy⟩,
    fun h y ⟨e, he, hy⟩ => h e he y hy⟩

theorem all_dict {es : List (Expr × Expr)} : All P (.dict s es) ↔
    P (.dict s es) ∧ ∀ e ∈ es, All P e.1 ∧ All P e.2 := by
  simp only [All, parts, List.forall_mem_cons, mem_entryParts]
  exact and_congr_right fun _ => ⟨fun h e he =>
    ⟨fun y hy => h y ⟨e, he, Or.inl hy⟩, fun y hy => h y ⟨e, he, Or.inr hy⟩⟩,
    fun h y ⟨e, he, hy⟩ => hy.elim ((h e he).1 y) ((h e he).2 y)⟩

theorem all_unary {op : UnaryOp} : All P (.unary s op e) ↔ P (.unary s op e) ∧ All P e := by
  simp only [All, parts, List.forall_mem_cons]

theorem all_binary {op : BinaryOp} : All P (.binary s op l r) ↔
    P (.binary s op l r) ∧ All P l ∧ All P r := by
  simp only [All, parts, List.forall_mem_cons, List.forall_mem_append]

theorem all_logical {op : LogicalOp} : All P (.logical s op l r) ↔
    P (.logical s op l r) ∧ All P l ∧ All P r := by
  simp only [All, parts, List.forall_mem_cons, List.forall_mem_append]

theorem all_call {f : String} {args : List Expr} {kws : List (String × Expr)} :
    All P (.call s f args kws) ↔
      P (.call s f args kws) ∧ (∀ e ∈ args, All P e) ∧ ∀ k ∈ kws, All P k.2 := by
  simp only [All, parts, List.forall_mem_cons, List.forall_mem_append, mem_allParts,
    mem_keywordParts]
  exact and_congr_right fun _ => and_congr
    ⟨fun h e he y hy => h y ⟨e, he, hy⟩, fun h y ⟨e, he, hy⟩ => h e he y hy⟩
    ⟨fun h k hk y hy => h y ⟨k, hk, hy⟩, fun h y ⟨k, hk, hy⟩ => h k hk y hy⟩

theorem all_index {i : Expr} : All P (.index s e i) ↔ P (.index s e i) ∧ All P e ∧ All P i := by
  simp only [All, parts, List.forall_mem_cons, List.forall_mem_append]

theorem all_attribute {a : String} : All P (.attribute s e a) ↔
    P (.attribute s e a) ∧ All P e := by
  simp only [All, parts, List.forall_mem_cons]

end All

/-- What a part of an expression is like by itself. -/
def Proper : Expr → Prop
  | .literal _ v => v.Literal
  | .name _ n => IsWord n
  | .format _ ps => Piece.WellFormed ps
  | .call _ f _ kws => IsWord f ∧ (∀ k ∈ kws, IsWord k.1) ∧ (kws.map Prod.fst).Nodup
  | .attribute _ _ a => IsWord a
  | _ => True

/-- All parts of an expression are as they have to be. -/
def WellFormed (e : Expr) : Prop := All Proper e

variable (move : Span → Span)

theorem startsText_mapPieces (ps : List Piece) :
    Piece.startsText (mapPieces move id ps) = Piece.startsText ps := by
  cases ps with
  | nil => rfl
  | cons p ps => cases p <;> rfl

theorem piecesWellFormed_mapPieces (ps : List Piece) :
    Piece.WellFormed (mapPieces move id ps) ↔ Piece.WellFormed ps := by
  induction ps with
  | nil => exact Iff.rfl
  | cons p ps ih =>
    cases p with
    | text s => rw [mapPieces, Piece.WellFormed, Piece.WellFormed, ih, startsText_mapPieces]
    | hole e places => rw [mapPieces, Piece.WellFormed, Piece.WellFormed, ih]

theorem keys_mapKeywords (kws : List (String × Expr)) :
    (mapKeywords move id kws).map Prod.fst = kws.map Prod.fst := by
  induction kws with
  | nil => rfl
  | cons k kws ih => rw [mapKeywords, List.map_cons, List.map_cons, ih]

/-- What a part is like does not depend on where it stands. -/
theorem proper_mapWith (e : Expr) : (e.mapWith move id).Proper ↔ e.Proper := by
  cases e with
  | format s ps => exact piecesWellFormed_mapPieces move ps
  | call s f args kws =>
    have hwords : ∀ kws : List (String × Expr), (∀ k ∈ kws, IsWord k.1) ↔
        ∀ k ∈ kws.map Prod.fst, IsWord k := fun kws => by simp
    rw [mapWith, Proper, Proper, hwords, hwords, keys_mapKeywords]
  | _ => exact Iff.rfl

theorem WellFormed.shift {e : Expr} (h : e.WellFormed) (origin : Span) :
    (e.shift origin).WellFormed := by
  intro y hy
  rw [Expr.shift, parts_mapWith] at hy
  obtain ⟨y', hy', rfl⟩ := List.mem_map.1 hy
  exact (proper_mapWith _ y').2 (h y' hy')

end Expr

namespace Grammar

variable {format : FormatParser} {ts us : List Located} {e : Expr}

/-- All of some tokens are well formed. -/
def Tidy (ts : List Located) : Prop := ∀ t ∈ ts, t.token.WellFormed

theorem Tidy.append (h : Tidy (ts ++ us)) : Tidy ts ∧ Tidy us := List.forall_mem_append.1 h

theorem Tidy.cons {t : Located} (h : Tidy (t :: ts)) : t.token.WellFormed ∧ Tidy ts :=
  List.forall_mem_cons.1 h

theorem Tidy.mono (h : Tidy ts) (hsub : us ⊆ ts) : Tidy us := fun t ht => h t (hsub ht)

/-- If the tokens are well formed, so is the expression that they spell. -/
def Forms (ts : List Located) (e : Expr) : Prop := Tidy ts → e.WellFormed

/-- **A phrase of well-formed tokens is well formed**, if the expressions in its brackets are and
the format strings among its tokens. -/
theorem Phrase.forms {l : Level}
    (hformat : ∀ raw s ps, format raw s = .ok ps → (Expr.format s ps).WellFormed)
    (h : Phrase Forms format l ts e) : Forms ts e := by
  induction h with
  | tighter h ih => exact ih
  | logical op hl s hr ihl ihr =>
    exact fun hts => Expr.all_logical.2 ⟨trivial, ihl hts.append.1, ihr hts.append.2.cons.2⟩
  | compare op hop hl s hr ihl ihr =>
    exact fun hts => Expr.all_binary.2 ⟨trivial, ihl hts.append.1, ihr hts.append.2.cons.2⟩
  | binary op hop hl s hr ihl ihr =>
    exact fun hts => Expr.all_binary.2 ⟨trivial, ihl hts.append.1, ihr hts.append.2.cons.2⟩
  | unary op s h ih => exact fun hts => Expr.all_unary.2 ⟨trivial, ih hts.cons.2⟩
  | call hf s s' hargs hkws ih =>
    intro hts
    have hus := hts.append.2.cons.2.append.1
    have hname : (Expr.name _ _).WellFormed := ih hts.append.1
    refine Expr.all_call.2 ⟨⟨Expr.all_name.1 hname, fun k hk => ?_, hkws⟩, fun a ha => ?_,
      fun k hk => ?_⟩
    · obtain ⟨vs, hvs, harg⟩ := hargs.exists_of_mem
        (List.mem_append_right _ (List.mem_map_of_mem (f := Sum.inr) hk))
      cases harg with
      | keyword k s s' h => exact (hus.mono hvs).cons.1
    · obtain ⟨vs, hvs, harg⟩ := hargs.exists_of_mem
        (List.mem_append_left _ (List.mem_map_of_mem (f := Sum.inl) ha))
      cases harg with
      | positional h => exact h (hus.mono hvs)
    · obtain ⟨vs, hvs, harg⟩ := hargs.exists_of_mem
        (List.mem_append_right _ (List.mem_map_of_mem (f := Sum.inr) hk))
      cases harg with
      | keyword k s s' h => exact h (hus.mono hvs).cons.2.cons.2
  | index he s s' hi ih =>
    exact fun hts => Expr.all_index.2 ⟨trivial, ih hts.append.1, hi hts.append.2.cons.2.append.1⟩
  | field he s s' a ih =>
    exact fun hts => Expr.all_attribute.2 ⟨hts.append.2.cons.2.cons.1, ih hts.append.1⟩
  | format h => exact fun _ => hformat _ _ _ h
  | parens s s' h => exact fun hts => h hts.cons.2.append.1
  | list s s' h =>
    intro hts
    refine Expr.all_list.2 ⟨trivial, fun a ha => ?_⟩
    obtain ⟨us, hus, hforms⟩ := h.exists_of_mem ha
    exact hforms (hts.cons.2.append.1.mono hus)
  | dict s s' h =>
    intro hts
    refine Expr.all_dict.2 ⟨trivial, fun a ha => ?_⟩
    obtain ⟨us, hus, hentry⟩ := h.exists_of_mem ha
    have htidy := hts.cons.2.append.1.mono hus
    cases hentry with
    | intro hk s hv => exact ⟨hk htidy.append.1, hv htidy.append.2.cons.2⟩
  | number x s => exact fun hts => Expr.all_literal.2 hts.cons.1
  | name n s => exact fun hts => Expr.all_name.2 hts.cons.1
  | _ => exact fun _ => Expr.all_literal.2 trivial

/-- Expression parsers form expressions of well-formed tokens. -/
theorem forms_expressionAt
    (hformat : ∀ raw s ps, format raw s = .ok ps → (Expr.format s ps).WellFormed) (n : Nat) :
    Sound (expressionAt format n) Forms := by
  induction n with
  | zero => exact fun ts e rest hread => by cases hread
  | succ n ih =>
    intro ts e rest hread
    obtain ⟨used, heq, hphrase⟩ := sound_disjunction ih hread
    exact ⟨used, heq, hphrase.forms hformat⟩

/-! ## Format strings -/

section Pieces

variable {read : List Char → Except SyntaxError Expr} {span : Span} {start : Nat}
  {literal : List Char}

theorem unescape_ne_nil {cs : List Char} (h : cs ≠ []) : Token.unescape cs ≠ [] := by
  rw [Token.unescape.eq_def]
  split
  · split_ifs <;> simp
  · simp
  · exact absurd rfl h

/-- Literal text in front of pieces that do not start with any. -/
theorem wellFormed_literalPiece (literal : List Char) {ps : List Piece}
    (hstart : Piece.startsText ps = false) (h : Piece.WellFormed ps) :
    Piece.WellFormed (literalPiece literal ++ ps) := by
  rw [literalPiece]
  split
  · exact h
  · rename_i hne
    refine ⟨fun hempty => ?_, hstart, h⟩
    have hlist := congrArg String.toList hempty
    rw [String.toList_ofList] at hlist
    exact unescape_ne_nil (List.reverse_ne_nil_iff.2 hne) hlist

theorem lt_of_readPlaces {cs : List Char} {n : Nat} (h : readPlaces cs = some n) : n < 2 ^ 64 := by
  rw [readPlaces.eq_def] at h
  obtain ⟨hfits, h⟩ := Option.ite_none_right_eq_some.1 h
  cases h
  exact hfits.2.2

theorem lt_of_splitFormat {cs source : List Char} {n : Nat}
    (h : splitFormat cs = (source, some n)) : n < 2 ^ 64 := by
  rw [splitFormat] at h
  split at h
  · cases h
  · split at h
    · rename_i places hformat
      cases h
      rw [readFormat.eq_def] at hformat
      split at hformat
      · split at hformat
        · exact lt_of_readPlaces hformat
        · cases hformat
      · cases hformat
    · cases h

/-- What an interpolation stands for. -/
theorem wellFormed_of_hole (hread : ∀ cs e, read cs = .ok e → e.WellFormed) {cs : List Char}
    {e : Expr} {places : Option Nat} (h : hole read span start cs = .ok (.hole e places)) :
    e.WellFormed ∧ ∀ n ∈ places, n < 2 ^ 64 := by
  rw [hole] at h
  split at h
  rename_i source places' hsplit
  dsimp only at h
  split at h
  · cases h
  · split at h
    · rename_i e' he
      cases h
      refine ⟨(hread _ _ he).shift _, ?_⟩
      rintro n rfl
      exact lt_of_splitFormat hsplit
    · cases h

/-- The pieces of a body are well formed. -/
theorem wellFormed_of_piecesFrom (hread : ∀ cs e, read cs = .ok e → e.WellFormed) {cs : List Char}
    {ps : List Piece} (h : piecesFrom read span start literal cs = .ok ps) :
    Piece.WellFormed ps ∧ ∀ h ∈ Piece.holes ps, h.1.WellFormed := by
  fun_induction piecesFrom read span start literal cs generalizing ps with
  | case1 start literal =>
    cases h
    rw [← List.append_nil (literalPiece literal), holes_literalPiece]
    exact ⟨wellFormed_literalPiece literal rfl trivial, fun _ hmem => absurd hmem List.not_mem_nil⟩
  | case2 start literal cs ih => exact ih h
  | case3 start literal cs ih => exact ih h
  | case4 start literal cs hne => cases h
  | case5 start literal cs hne hnone => cases h
  | case6 start literal cs hne n hsome ih =>
    obtain ⟨piece, hpiece, h⟩ := exists_of_bind h
    obtain ⟨rest, hrest, h⟩ := exists_of_bind h
    cases h
    obtain ⟨e, places, rfl⟩ := exists_of_hole hpiece
    obtain ⟨he, hplaces⟩ := wellFormed_of_hole hread hpiece
    obtain ⟨hps, hholes⟩ := ih hrest
    rw [holes_literalPiece]
    exact ⟨wellFormed_literalPiece literal rfl ⟨hplaces, hps⟩,
      List.forall_mem_cons.2 ⟨he, hholes⟩⟩
  | case7 start literal c cs _ _ hc ho ih => exact ih h

end Pieces

theorem wellFormed_of_pieces {read : List Char → Except SyntaxError Expr}
    (hread : ∀ cs e, read cs = .ok e → e.WellFormed) (raw : String) (s : Span) (ps : List Piece)
    (h : pieces read raw s = .ok ps) : (Expr.format s ps).WellFormed :=
  Expr.all_format.2 (wellFormed_of_piecesFrom hread h)

theorem wellFormed_of_read (n : Nat) (cs : List Char) (e : Expr)
    (h : Grammar.read n cs = .ok e) : e.WellFormed := by
  induction n generalizing cs e with
  | zero => cases h
  | succ n ih =>
    obtain ⟨ts, hts, h⟩ := exists_of_bind h
    obtain ⟨⟨e', rest⟩, he, h⟩ := exists_of_bind h
    obtain ⟨more, -, h⟩ := exists_of_bind h
    cases h
    obtain ⟨used, rfl, hforms⟩ := forms_expressionAt (wellFormed_of_pieces ih) _ he
    exact hforms (Tidy.append (Token.wellFormed_of_ofSource hts)).1

end Grammar

/-- **Every expression that is read is well formed.** -/
theorem Expr.wellFormed_of_ofSource {cs : List Char} {e : Expr} (h : Expr.ofSource cs = .ok e) :
    e.WellFormed :=
  Grammar.wellFormed_of_read _ cs e h

end ReactiveScript

import ReactiveScript.Proofs.Grammar.Holes
import ReactiveScript.Proofs.Grammar.Outcome

/-!
# Where interpolated expressions stand in a file

The text of an interpolation is read by itself, and its positions are then moved into the file, once
for every format string around it.  They end up where the tokens of the text stand in the file, but
for one thing: columns count characters, and the white space between the brace and the text is
counted in bytes.  Every blank that takes more than one byte moves the expression to the right, and
so does every such blank in front of an interpolation around it.

* `Excerpt`, `Excerpt.In` — the texts in a file that are read by themselves, and their surplus of
  columns.
* `Excerpt.Carries` — an expression that is read in an excerpt stands where one of its tokens does.
* `Excerpt.In.carries` — all parts of an expression do.
* `Excerpt.In.exists_fault` — an error is found in the excerpt in which something is wrong.
* `Script.spans_in_file` — both for a script.
-/

set_option autoImplicit false

namespace ReactiveScript

open Grammar

/-- A position some columns further right. -/
def Span.right (n : Nat) (s : Span) : Span := ⟨s.line, s.col + n⟩

theorem Span.right_right (m n : Nat) (s : Span) : (s.right m).right n = s.right (m + n) := by
  rw [Span.right, Span.right, Span.right, Nat.add_assoc]

/-- Moving a position to the right does the same to it in the text around. -/
theorem Span.within_right (origin : Span) (n : Nat) {s : Span} (hs : 1 ≤ s.col) :
    origin.within (s.right n) = (origin.within s).right n := by
  rw [Span.within, Span.within, Span.right]
  dsimp only
  split
  · rw [Span.right]
    exact congrArg (Span.mk _) (by dsimp only; omega)
  · rfl

theorem Span.within_start (s : Span) : Span.within ⟨1, 1⟩ s = s := by
  rw [Span.within]
  split
  · rename_i hline
    rw [Nat.add_sub_cancel_left, ← hline]
  · rw [Nat.add_sub_cancel_left]

/-- A position on the first line of a text. -/
def Span.OnLine (s : Span) : Prop := s.line = 1 ∧ 1 ≤ s.col

theorem Span.onLine_behind {cs : List Char} (h : '\n' ∉ cs) (n : Nat) :
    ((Span.behind cs).right n).OnLine :=
  ⟨Span.line_behind h, Nat.le_trans (Nat.le_add_left 1 _) (Nat.le_add_right _ n)⟩

/-- A text that is read by itself, as it occurs in a file. -/
structure Excerpt where
  /-- What stands in front of it in the file. -/
  before : List Char
  /-- The text. -/
  text : List Char
  /-- How many columns too far to the right its positions are reported. -/
  surplus : Nat

namespace Excerpt

/-- A file as a whole. -/
def file (cs : List Char) : Excerpt := ⟨[], cs, 0⟩

/-- The text of an interpolation of a format string that stands in an excerpt, behind `u` and with
quotes `q`.  To the surplus it adds the bytes of its white space beyond one for each character. -/
def inside (x : Excerpt) (u : List Char) (q : Char) (i : Interpolation) : Excerpt where
  before := x.before ++ u ++ 'f' :: q :: (i.front ++ i.blanks)
  text := i.text
  surplus := x.surplus + (byteLength i.blanks - i.blanks.length)

/-- Where the character behind a part `u` of an excerpt stands in the file. -/
def place (x : Excerpt) (u : List Char) : Span := Span.behind (x.before ++ u)

/-- Where the positions of an excerpt are counted from. -/
def origin (x : Excerpt) : Span := (Span.behind x.before).right x.surplus

/-- A format string with a body stands in an excerpt, behind `u` and with quotes `q`. -/
structure FormatAt (x : Excerpt) (u : List Char) (q : Char) (raw : String) : Prop where
  /-- It is a token of the excerpt. -/
  token : ∃ ts, Token.ofSource x.text = .ok ts ∧ (⟨.format raw, Span.behind u⟩ : Located) ∈ ts
  /-- Its quotes. -/
  quote : q = '"' ∨ q = '\''
  /-- It stands there. -/
  text_eq : ∃ rest, x.text = u ++ 'f' :: q :: (raw.toList ++ q :: rest)

/-- The excerpts of a file, with the number of format strings around them: the file itself, and the
texts of the interpolations of the format strings in excerpts. -/
inductive In (cs : List Char) : Nat → Excerpt → Prop
  /-- The file. -/
  | file : In cs 0 (.file cs)
  /-- The text of an interpolation. -/
  | inside {n : Nat} {x : Excerpt} {u : List Char} {q : Char} {raw : String} {i : Interpolation}
    (hx : In cs n x) (hformat : x.FormatAt u q raw) (hi : i ∈ interpolations raw) :
    In cs (n + 1) (x.inside u q i)

/-- An expression that is read in the text of an excerpt stands at one of its tokens, and once it is
moved, where that token does in the file, up to the surplus.  If it is a format string, its holes are
then the interpolations, in their order, each with what its text is read as by itself, moved to where
the text stands in the file, again up to the surplus. -/
def Carries (x : Excerpt) (y : Expr) : Prop :=
  ∃ ts t u, Token.ofSource x.text = .ok ts ∧ t ∈ ts ∧ u <+: x.text ∧ t.span = Span.behind u ∧
    y.span = t.span ∧ (y.shift x.origin).span = (x.place u).right x.surplus ∧
    ∀ s ps, y.shift x.origin = .format s ps → ∃ raw q, t.token = .format raw ∧ x.FormatAt u q raw ∧
      List.Forall₂ (fun i h => ∃ e, Expr.ofSource i.text = .ok e ∧
        h = (e.shift (x.inside u q i).origin, i.places)) (interpolations raw) (Piece.holes ps)

variable {cs : List Char} {n : Nat} {x : Excerpt} {u : List Char} {q : Char} {raw : String}
  {i : Interpolation}

/-! ## Places -/

theorem FormatAt.newline (h : x.FormatAt u q raw) : '\n' ∉ raw.toList := by
  obtain ⟨ts, hts, hmem⟩ := h.token
  obtain ⟨-, -, -, -, -, -, hline⟩ := Token.exists_format_of_mem hts hmem
  exact hline

theorem FormatAt.isPrefix (h : x.FormatAt u q raw) : u <+: x.text := by
  obtain ⟨rest, hrest⟩ := h.text_eq
  exact hrest ▸ List.prefix_append u _

/-- The text of an interpolation is on one line. -/
theorem FormatAt.newline_text (h : x.FormatAt u q raw) (hi : i ∈ interpolations raw) :
    '\n' ∉ i.text := by
  obtain ⟨rest, hraw⟩ := exists_body_eq hi
  exact fun hmem => h.newline (by rw [hraw]; simp [hmem])

/-- It is shorter than the text around it. -/
theorem FormatAt.length_lt (h : x.FormatAt u q raw) (hi : i ∈ interpolations raw) :
    i.text.length < x.text.length := by
  obtain ⟨rest, hrest⟩ := h.text_eq
  have hlength := length_text_le hi
  rw [hrest]
  simp only [List.length_append, List.length_cons]
  omega

/-- **An excerpt stands in the file.** -/
theorem In.isPrefix (h : In cs n x) : x.before ++ x.text <+: cs := by
  induction h with
  | file => exact List.prefix_refl cs
  | @inside n x u q raw i hx hformat hi ih =>
    obtain ⟨rest, hrest⟩ := hformat.text_eq
    obtain ⟨more, hraw⟩ := exists_body_eq hi
    refine List.IsPrefix.trans ⟨more ++ q :: rest, ?_⟩ ih
    rw [hrest, hraw]
    simp [Excerpt.inside]

/-- Excerpts other than the file are on one line; the file has no surplus. -/
theorem In.line (h : In cs n x) : x.surplus = 0 ∨ '\n' ∉ x.text := by
  cases h with
  | file => exact Or.inl rfl
  | inside hx hformat hi => exact Or.inr (hformat.newline_text hi)

/-- **Positions of an excerpt are moved to where they are in the file**, up to the surplus. -/
theorem In.within_origin (h : In cs n x) (hu : u <+: x.text) :
    x.origin.within (Span.behind u) = (x.place u).right x.surplus := by
  have hplace : (Span.behind x.before).within (Span.behind u) = x.place u :=
    Span.within_behind x.before u
  rcases h.line with hsurplus | hline
  · rw [origin, hsurplus]
    exact hplace
  · have hu : '\n' ∉ u := fun hmem => hline (hu.subset hmem)
    rw [← hplace, Span.within, Span.within, if_pos (Span.line_behind hu),
      if_pos (Span.line_behind hu), origin, Span.right, Span.right]
    exact congrArg (Span.mk _) (by rw [Span.behind, Span.behind]; dsimp only; omega)

theorem length_le_byteLength (cs : List Char) : cs.length ≤ byteLength cs := by
  induction cs with
  | nil => exact Nat.le_refl 0
  | cons c cs ih =>
    rw [byteLength_cons, List.length_cons]
    have := c.utf8Size_pos
    omega

theorem byteLength_eq_length {cs : List Char} (h : ∀ c ∈ cs, c.utf8Size = 1) :
    byteLength cs = cs.length := by
  induction cs with
  | nil => rfl
  | cons c cs ih =>
    obtain ⟨hc, hcs⟩ := List.forall_mem_cons.1 h
    rw [byteLength_cons, hc, ih hcs, List.length_cons, Nat.add_comm]

/-- **Moving twice is moving at once**: into the text around a format string and from there into the
file, as the positions of an interpolation are moved. -/
theorem In.within_inside (h : In cs n x) (hformat : x.FormatAt u q raw)
    (hi : i ∈ interpolations raw) {s : Span} (hs : s.OnLine) :
    x.origin.within ((i.origin (Span.behind u)).within s) = (x.inside u q i).origin.within s := by
  obtain ⟨more, hraw⟩ := exists_body_eq hi
  have hlead : '\n' ∉ 'f' :: q :: (i.front ++ i.blanks) := by
    have hfront : '\n' ∉ i.front ++ i.blanks := fun hmem => hformat.newline (by
      rw [hraw, List.append_assoc]
      exact List.mem_append_left _ hmem)
    rcases hformat.quote with rfl | rfl <;> simpa using hfront
  have hinner : (i.origin (Span.behind u)).within s = (Span.behind u).right
      (1 + i.front.length + byteLength i.blanks + s.col) := by
    rw [Span.within, if_pos hs.1, Interpolation.origin, Span.right]
    exact congrArg (Span.mk _) (by dsimp only; omega)
  have houter : (x.inside u q i).origin = (x.place u).right
      (2 + i.front.length + byteLength i.blanks + x.surplus) := by
    have hbytes := length_le_byteLength i.blanks
    rw [origin, Excerpt.inside, Span.behind_append hlead, Span.right, Span.right, place]
    exact congrArg (Span.mk _) (by
      simp only [List.length_cons, List.length_append]
      omega)
  have hbehind : 1 ≤ (Span.behind u).col := Nat.le_add_left 1 _
  rw [hinner, Span.within_right _ _ hbehind, h.within_origin hformat.isPrefix, Span.right_right,
    houter, Span.within, if_pos hs.1, Span.right, Span.right]
  exact congrArg (Span.mk _) (by have := hs.2; dsimp only; omega)

/-! ## Expressions -/

/-- Every token of an excerpt stands in it; so does the body of a format string. -/
theorem exists_place {ts : List Located} (hts : Token.ofSource x.text = .ok ts) {t : Located}
    (ht : t ∈ ts) : ∃ u, u <+: x.text ∧ t.span = Span.behind u ∧
      ∀ raw, t.token = .format raw → ∃ q, x.FormatAt u q raw := by
  obtain ⟨token, s⟩ := t
  cases token with
  | format raw =>
    obtain ⟨u, q, rest, rfl, hq, htext, -⟩ := Token.exists_format_of_mem hts ht
    refine ⟨u, htext ▸ List.prefix_append u _, rfl, fun raw' heq => ?_⟩
    cases heq
    exact ⟨q, ⟨ts, hts, ht⟩, hq, rest, htext⟩
  | _ =>
    obtain ⟨u, hu, hspan⟩ := Token.exists_prefix_of_mem hts ht
    exact ⟨u, hu, hspan, nofun⟩

theorem exists_drawn {cs : List Char} {e : Expr} (h : Expr.ofSource cs = .ok e) :
    ∃ ts, Token.ofSource cs = .ok ts ∧ Drawn formatPieces ts e := by
  rw [ofSource_eq] at h
  obtain ⟨ts, hts, h⟩ := exists_of_bind h
  exact ⟨ts, hts, drawn_of_wholeExpression (within_of_ofSource hts) h⟩

theorem within_file (cs : List Char) (s : Span) : (file cs).origin.within s = s :=
  Span.within_start s

theorem shift_file (cs : List Char) (e : Expr) : e.shift (file cs).origin = e := by
  rw [Expr.shift, show (file cs).origin.within = id from funext (within_file cs)]
  exact e.mapWith_id

/-- In a file on one line, all excerpts are on that line. -/
theorem In.onLine (h : In cs n x) (hline : '\n' ∉ cs) (hu : u <+: x.text) :
    ((x.place u).right x.surplus).OnLine := by
  obtain ⟨rest, hrest⟩ := hu
  have hplace : x.before ++ u <+: cs := by
    refine List.IsPrefix.trans ⟨rest, ?_⟩ h.isPrefix
    rw [List.append_assoc, hrest]
  exact Span.onLine_behind (fun hmem => hline (hplace.subset hmem)) _

/-- An expression that is moved into the text around, and then into the file, is moved to where its
text stands in the file. -/
theorem In.shift_inside (h : In cs n x) (hformat : x.FormatAt u q raw)
    (hi : i ∈ interpolations raw) {e : Expr} (he : ∀ y ∈ e.parts, y.span.OnLine) :
    (e.shift (i.origin (Span.behind u))).shift x.origin = e.shift (x.inside u q i).origin :=
  (Expr.mapWith_mapWith _ _ e).trans
    (Expr.mapWith_congr e fun y hy => h.within_inside hformat hi (he y hy))

/-- A hole is one of the interpolations. -/
theorem exists_of_mem_holes {R : Interpolation → Expr × Option Nat → Prop}
    {is : List Interpolation} {hs : List (Expr × Option Nat)} (h : List.Forall₂ R is hs)
    {hole : Expr × Option Nat} (hmem : hole ∈ hs) : ∃ i ∈ is, R i hole := by
  induction h with
  | nil => cases hmem
  | @cons i _ _ _ hR _ ih =>
    rcases List.mem_cons.1 hmem with rfl | hmem
    · exact ⟨i, List.mem_cons_self .., hR⟩
    · obtain ⟨j, hj, hR⟩ := ih hmem
      exact ⟨j, List.mem_cons_of_mem _ hj, hR⟩

/-- **All parts of an expression stand where tokens of excerpts do**, up to the surplus: each is a
part of what is read in an excerpt, moved into the file. -/
theorem In.carries (h : In cs n x) {ts : List Located} (hts : Token.ofSource x.text = .ok ts)
    {e : Expr} (he : Drawn formatPieces ts e) {y : Expr} (hy : y ∈ (e.shift x.origin).parts) :
    ∃ m x' e' y', In cs m x' ∧ ((x' = x ∧ e' = e) ∨ Expr.ofSource x'.text = .ok e') ∧
      y' ∈ e'.parts ∧ y = y'.shift x'.origin ∧ x'.Carries y' := by
  -- the texts of interpolations are shorter, and each of them is also a file of its own
  induction hlength : x.text.length using Nat.strongRecOn generalizing cs n x ts e y with
  | ind k ih =>
    subst hlength
    have hline : ∀ {u q raw i}, x.FormatAt u q raw → i ∈ interpolations raw → ∀ {e},
        Expr.ofSource i.text = .ok e → ∀ y ∈ e.parts, y.span.OnLine := by
      intro u q raw i hformat hi e he y hy
      obtain ⟨ts, hts, hdrawn⟩ := exists_drawn he
      rw [← shift_file i.text e] at hy
      obtain ⟨m, x', e', y', hx', -, -, rfl, -, -, u, -, -, hu, -, -, hspan, -⟩ :=
        ih _ (hformat.length_lt hi) In.file hts hdrawn hy rfl
      exact hspan ▸ hx'.onLine (hformat.newline_text hi) hu
    rw [Expr.shift, Expr.parts_mapWith] at hy
    obtain ⟨y₀, hy₀, rfl⟩ := List.mem_map.1 hy
    rcases he.parts y₀ hy₀ with ⟨t, ht, hspan, hpieces⟩ | ⟨raw, s, ps, hmem, hps, hole, hhole, hy₀⟩
    · obtain ⟨u, hu, htspan, hformats⟩ := exists_place hts ht
      refine ⟨n, x, e, y₀, h, Or.inl ⟨rfl, rfl⟩, hy₀, rfl, ts, t, u, hts, ht, hu, htspan, hspan, ?_,
        fun s ps heq => ?_⟩
      · rw [Expr.shift, Expr.span_mapWith, hspan, htspan, h.within_origin hu]
      · cases y₀ with
        | format s₀ ps₀ =>
          obtain ⟨raw, hraw, hps⟩ := hpieces s₀ ps₀ rfl
          obtain ⟨q, hformat⟩ := hformats raw hraw
          obtain ⟨-, rfl⟩ := Expr.format.inj heq
          rw [htspan] at hps
          refine ⟨raw, q, hraw, hformat, ?_⟩
          rw [Expr.holes_mapPieces, List.forall₂_map_right_iff]
          have hholes := (List.forall₂_and_left _ _).2 ⟨fun i hi => hi, holes_of_formatPieces hps⟩
          refine hholes.imp ?_
          rintro i hole ⟨hi, e', he', rfl⟩
          refine ⟨e', he', Prod.ext ?_ rfl⟩
          exact h.shift_inside hformat hi (hline hformat hi he')
        | _ => cases heq
    · obtain ⟨u, hu, hs, hformats⟩ := exists_place hts hmem
      dsimp only at hs
      subst hs
      obtain ⟨q, hformat⟩ := hformats raw rfl
      obtain ⟨i, hi, e', he', rfl⟩ := exists_of_mem_holes (holes_of_formatPieces hps) hhole
      obtain ⟨ts', hts', hdrawn⟩ := exists_drawn he'
      have hmoved : y₀.mapWith x.origin.within id ∈ (e'.shift (x.inside u q i).origin).parts := by
        rw [← h.shift_inside hformat hi (hline hformat hi he'), Expr.shift, Expr.parts_mapWith]
        exact List.mem_map_of_mem hy₀
      obtain ⟨m, x', e'', y', hx', hread, hpart⟩ :=
        ih _ (hformat.length_lt hi) (h.inside hformat hi) hts' hdrawn hmoved rfl
      refine ⟨m, x', e'', y', hx', Or.inr ?_, hpart⟩
      rcases hread with ⟨rfl, rfl⟩ | hread
      · exact he'
      · exact hread

/-! ## Errors -/

/-- Something is wrong in an excerpt, and not in an interpolation of it.  It is reported where it is
in the file, up to the surplus. -/
structure Faulty (x : Excerpt) (fault : SyntaxError) (reported : Span) : Prop where
  /-- It is wrong with the text by itself. -/
  error : Expr.ofSource x.text = .error fault
  /-- It is not in an interpolation. -/
  plain : fault.cause.Plain
  /-- It is at a position of the text, and reported at the position in the file. -/
  place : ∃ u, u <+: x.text ∧ fault.span = Span.behind u ∧ reported = (x.place u).right x.surplus

theorem In.faulty (h : In cs n x) {err : SyntaxError} (herr : Expr.ofSource x.text = .error err)
    (hplain : err.cause.Plain) (hu : u <+: x.text) (hspan : err.span = Span.behind u) :
    x.Faulty err (x.origin.within err.span) :=
  ⟨herr, hplain, u, hu, hspan, hspan ▸ h.within_origin hu⟩

/-- An error in a text on one line is on that line. -/
theorem Faulty.onLine {err fault : SyntaxError} {m : Nat} (hx : In cs m x)
    (hfaulty : x.Faulty fault ((Excerpt.file cs).origin.within err.span)) (hline : '\n' ∉ cs) :
    err.span.OnLine := by
  obtain ⟨u, hu, -, hplace⟩ := hfaulty.place
  rw [within_file] at hplace
  exact hplace ▸ hx.onLine hline hu

/-- **An error is found in the excerpt in which something is wrong.**  Its cause tells how many
format strings are around that excerpt. -/
theorem In.exists_fault (h : In cs n x) {err : SyntaxError}
    (herr : Expr.ofSource x.text = .error err) : ∃ m x' fault, In cs (n + m) x' ∧
      x'.Faulty fault (x.origin.within err.span) ∧
        err.cause = SyntaxError.Cause.interpolation^[m] fault.cause := by
  -- as before, the text of an interpolation is also a file of its own
  induction hlength : x.text.length using Nat.strongRecOn generalizing cs n x err with
  | ind k ih =>
    subst hlength
    have hread := herr
    rw [ofSource_eq] at hread
    rcases error_of_bind hread with htokens | ⟨ts, hts, hread⟩
    · obtain ⟨hplain, u, hu, hspan⟩ := Token.exists_prefix_of_error htokens
      exact ⟨0, x, err, h, h.faulty herr hplain hu hspan, rfl⟩
    rcases blames_of_wholeExpression (within_of_ofSource hts) hread with
      ⟨hplain, t, ht, hspan⟩ | ⟨raw, s, hmem, hraw⟩
    · obtain ⟨u, hu, htspan⟩ := Token.exists_prefix_of_mem hts ht
      exact ⟨0, x, err, h, h.faulty herr hplain hu (hspan.trans htspan), rfl⟩
    · obtain ⟨u, hu, hs, hformats⟩ := exists_place hts hmem
      dsimp only at hs
      subst hs
      rcases error_of_formatPieces hraw with ⟨hspan, hplain⟩ | ⟨i, hi, inner, hinner, rfl⟩
      · exact ⟨0, x, err, h, h.faulty herr hplain hu hspan, rfl⟩
      · obtain ⟨q, hformat⟩ := hformats raw rfl
        have hline : inner.span.OnLine := by
          have hfile : In i.text 0 (.file i.text) := .file
          obtain ⟨m, x', fault, hx', hfaulty, -⟩ := ih _ (hformat.length_lt hi) hfile hinner rfl
          exact hfaulty.onLine hx' (hformat.newline_text hi)
        obtain ⟨m, x', fault, hx', hfaulty, hcause⟩ :=
          ih _ (hformat.length_lt hi) (h.inside hformat hi) hinner rfl
        rw [← h.within_inside hformat hi hline] at hfaulty
        refine ⟨m + 1, x', fault, ?_, hfaulty, ?_⟩
        · rwa [Nat.add_right_comm, Nat.add_assoc] at hx'
        · rw [Function.iterate_succ_apply', ← hcause]

/-! ## The surplus -/

/-- **In a file whose white space takes a byte each there is no surplus.** -/
theorem In.surplus_eq_zero (h : In cs n x) (hcs : ∀ c ∈ cs, Text.isBlank c = true → c.utf8Size = 1) :
    x.surplus = 0 := by
  induction h with
  | file => rfl
  | @inside n x u q raw i hx hformat hi ih =>
    have hin : ∀ c ∈ i.blanks, c ∈ cs := by
      obtain ⟨rest, htext⟩ := hformat.text_eq
      obtain ⟨more, hraw⟩ := exists_body_eq hi
      refine fun c hc => hx.isPrefix.subset ?_
      rw [htext, hraw]
      simp [hc]
    have hbytes : byteLength i.blanks = i.blanks.length :=
      byteLength_eq_length fun c hc => hcs c (hin c hc) (isBlank_of_mem_blanks hi hc)
    rw [Excerpt.inside, ih, hbytes, Nat.sub_self]

end Excerpt

/-- **Where the parts of the expressions of a script stand in its text, and where its errors do.**

Every part of an expression, however deep in format strings, is a part of what the file or the text
of an interpolation is read as by itself.  Where it stands in the file is where the token stands that
it is at in that text, and an error in an interpolation stands where its position in the text of the
interpolation is in the file.  Both are moved to the right by the surplus of the text, as all
positions of the text are, and there is none if all white space in the file takes one byte. -/
theorem Script.spans_in_file (source : String) :
    (∀ script, Script.ofSource source = .ok script → ∀ e ∈ script.expressions, ∀ y ∈ e.parts,
      ∃ n x e' y', Excerpt.In source.toList n x ∧
        ((x = .file source.toList ∧ e' = e) ∨ Expr.ofSource x.text = .ok e') ∧
        y' ∈ e'.parts ∧ y = y'.shift x.origin ∧ x.Carries y') ∧
    (∀ err cause, Script.ofSource source = .error err → err.cause = .interpolation cause →
      ∃ n x fault, Excerpt.In source.toList (n + 1) x ∧ x.Faulty fault err.span ∧
        cause = SyntaxError.Cause.interpolation^[n] fault.cause) ∧
    ∀ n x, Excerpt.In source.toList n x → x.before ++ x.text <+: source.toList ∧
      (∀ u, u <+: x.text → x.origin.within (Span.behind u) = (x.place u).right x.surplus) ∧
      ((∀ c ∈ source.toList, Text.isBlank c = true → c.utf8Size = 1) → x.surplus = 0) := by
  refine ⟨fun script h e he y hy => ?_, fun err cause h hcause => ?_,
    fun n x h => ⟨h.isPrefix, fun u hu => h.within_origin hu, h.surplus_eq_zero⟩⟩
  · obtain ⟨ts, hts, hdrawn⟩ := Script.drawn_of_ofSource h
    rw [← Excerpt.shift_file source.toList e] at hy
    exact Excerpt.In.file.carries hts (hdrawn e he) hy
  · rcases Script.blames_of_ofSource h with htokens | ⟨ts, hts, ⟨hplain, -⟩ | ⟨raw, s, hmem, hraw⟩⟩
    · exact absurd hcause ((Token.exists_prefix_of_error htokens).1 cause)
    · exact absurd hcause (hplain cause)
    · obtain ⟨u, -, rfl, hformats⟩ :=
        Excerpt.exists_place (x := .file source.toList) hts hmem
      rcases error_of_formatPieces hraw with ⟨-, hplain⟩ | ⟨i, hi, inner, hinner, rfl⟩
      · exact absurd hcause (hplain cause)
      obtain ⟨q, hformat⟩ := hformats raw rfl
      have hline : inner.span.OnLine := by
        obtain ⟨m, x, fault, hx, hfaulty, -⟩ := Excerpt.In.file.exists_fault hinner
        exact hfaulty.onLine hx (hformat.newline_text hi)
      obtain ⟨m, x, fault, hx, hfaulty, hinnerCause⟩ :=
        (Excerpt.In.file.inside hformat hi).exists_fault hinner
      rw [← Excerpt.In.file.within_inside hformat hi hline, Excerpt.within_file] at hfaulty
      refine ⟨m, x, fault, ?_, hfaulty, ?_⟩
      · rwa [Nat.zero_add, Nat.add_comm] at hx
      · exact (SyntaxError.Cause.interpolation.inj hcause).symm.trans hinnerCause

/-! ## A space in front of a name -/

/-- The text of a script that shows a value, with a space in front of its name. -/
def spacedText : String := "x = f\"\x7b y\x7d\"\n"

/-- The format string in it. -/
def spacedFormat : Expr := .format ⟨1, 5⟩ [.hole (.name ⟨1, 9⟩ "y") none]

/-- The text with a second name, which is one too many. -/
def crowdedText : String := "x = f\"\x7b y z\x7d\"\n"

theorem utf8Size_of_all {cs : List Char}
    (h : (cs.all fun c => !Text.isBlank c || c.utf8Size == 1) = true) :
    ∀ c ∈ cs, Text.isBlank c = true → c.utf8Size = 1 := by
  intro c hc hblank
  have hsize := List.all_eq_true.1 h c hc
  simpa [hblank] using hsize

theorem Script.spans_in_file_of_space :
    Script.ofSource spacedText = .ok ⟨[.assign ⟨1, 1⟩ "x" spacedFormat]⟩ ∧
      (∃ (n : Nat) (x : Excerpt) (e' y' : Expr), Excerpt.In spacedText.toList n x ∧
        ((x = .file spacedText.toList ∧ e' = spacedFormat) ∨ Expr.ofSource x.text = .ok e') ∧
        y' ∈ e'.parts ∧ .name ⟨1, 9⟩ "y" = y'.shift x.origin ∧ x.Carries y' ∧ x.surplus = 0) ∧
      ∃ cause, Script.ofSource crowdedText = .error ⟨.interpolation cause, ⟨1, 11⟩⟩ ∧
        ∃ n x fault, Excerpt.In crowdedText.toList (n + 1) x ∧ x.Faulty fault ⟨1, 11⟩ ∧
          cause = SyntaxError.Cause.interpolation^[n] fault.cause ∧ x.surplus = 0 := by
  have hread : Script.ofSource spacedText = .ok ⟨[.assign ⟨1, 1⟩ "x" spacedFormat]⟩ := by cbv
  obtain ⟨hcarries, -, hsurplus⟩ := Script.spans_in_file spacedText
  obtain ⟨n, x, e', y', hx, he', hpart, hmoved, hname⟩ := hcarries _ hread spacedFormat
    (List.mem_singleton_self _) (.name ⟨1, 9⟩ "y")
    (by simp [spacedFormat, Expr.parts, Expr.pieceParts])
  obtain ⟨cause, hcrowded⟩ : ∃ cause, Script.ofSource crowdedText =
      .error ⟨.interpolation cause, ⟨1, 11⟩⟩ := ⟨_, by cbv⟩
  obtain ⟨-, hfaults, hnone⟩ := Script.spans_in_file crowdedText
  obtain ⟨m, x', fault, hx', hfaulty, hcause⟩ := hfaults _ cause hcrowded rfl
  have hspaced : x.surplus = 0 := (hsurplus n x hx).2.2 (utf8Size_of_all (by decide))
  exact ⟨hread, ⟨n, x, e', y', hx, he', hpart, hmoved, hname, hspaced⟩, cause, hcrowded, m, x',
    fault, hx', hfaulty, hcause, (hnone _ x' hx').2.2 (utf8Size_of_all (by decide))⟩

/-- A no-break space takes two bytes, and the name is reported a column too far to the right. -/
example : Script.ofSource "x = f\"\x7b\u00a0y\x7d\"\n" = .ok
    ⟨[.assign ⟨1, 1⟩ "x" (.format ⟨1, 5⟩ [.hole (.name ⟨1, 10⟩ "y") none])]⟩ := by
  cbv

end ReactiveScript

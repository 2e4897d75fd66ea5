import ReactiveScript.Proofs.Number.Text
import ReactiveScript.Proofs.Token.Line

/-!
# Written tokens

How tokens are written so that a scan finds them again.  A scan always takes the longest lexeme, so
that it depends on what stands behind a text whether it is cut off there: a word or a number must
not go on.  Blanks may stand between tokens.

* `Token.Scans` — a text in front of another one is scanned as some tokens.
* `Token.Apart` — a text does not go on with the word or number in front of it.
* `Token.Writes` — a text is scanned as some tokens wherever it stands apart.
* `Token.IsWord` — a text can be a name.
* `Token.writes_name`, `Token.writes_numeral`, `Token.writes_text` — how names, numbers and text
  literals are written.
-/

set_option autoImplicit false

namespace ReactiveScript

namespace Token

/-! ## Texts in front of others -/

/-- The text `w` in front of `rest` is scanned as the tokens `ts`, and `rest` as it would be
otherwise. -/
def Scans (w rest : List Char) (ts : List Token) : Prop :=
  ∀ p : Cursor, ∃ xs : List Scanned, xs.map Scanned.lexeme = ts.map Lexeme.token ∧
    scan p (w ++ rest) = (xs ++ (scan (p.past w) rest).1, (scan (p.past w) rest).2)

namespace Scans

variable {w w' rest : List Char} {ts ts' : List Token}

theorem nil (rest : List Char) : Scans [] rest [] := fun _ => ⟨[], rfl, rfl⟩

theorem append (h : Scans w (w' ++ rest) ts) (h' : Scans w' rest ts') :
    Scans (w ++ w') rest (ts ++ ts') := by
  intro p
  obtain ⟨xs, hxs, hscan⟩ := h p
  obtain ⟨xs', hxs', hscan'⟩ := h' (p.past w)
  refine ⟨xs ++ xs', by rw [List.map_append, List.map_append, hxs, hxs'], ?_⟩
  rw [List.append_assoc, hscan, hscan', p.past_append, List.append_assoc]

/-- A token in front of others. -/
theorem token {t : Token} (h : Scans w (w' ++ rest) [t]) (h' : Scans w' rest ts') :
    Scans (w ++ w') rest (t :: ts') := h.append h'

/-- A blank in front. -/
theorem blank (h : Scans w rest ts) : Scans (' ' :: w) rest ts := by
  intro p
  obtain ⟨xs, hxs, hscan⟩ := h (p.next ' ')
  refine ⟨xs, hxs, ?_⟩
  rw [List.cons_append, scan_gap rfl, hscan]
  rfl

end Scans

/-- A text is scanned as one token if that is cut off it. -/
theorem scans_of_munch {c : Char} {w rest : List Char} {t : Token} (hgap : isGap c = false)
    (h : munch c (w ++ rest) = (.token t, w.length)) : Scans (c :: w) rest [t] := by
  intro p
  refine ⟨[⟨.token t, p.span, p.width⟩], rfl, ?_⟩
  rw [List.cons_append, scan_lexeme (by simp [hgap]) p h, List.take_left, List.drop_left]
  rfl

/-! ## Marks -/

/-- Whether an operator or delimiter is the beginning of a longer one. -/
def grows : Mark → Bool
  | .assign | .less | .greater => true
  | _ => false

theorem munch_orEqual {c : Char} {rest : List Char} (h : rest.head? ≠ some '=') (long : Mark)
    {m : Mark} (hmunch : ∀ cs, munch c cs = orEqual cs long (.token (.mark m))) :
    munch c ([] ++ rest) = (.token (.mark m), 0) := by
  rw [List.nil_append, hmunch]
  cases rest with
  | nil => rfl
  | cons d ds =>
    rw [orEqual.eq_def]
    split
    · rename_i heq
      exact absurd (congrArg List.head? heq) h
    · rfl

/-- **An operator or delimiter is scanned as it is written**, unless an equals sign makes it a
longer one. -/
theorem scans_mark {m : Mark} {rest : List Char} (h : grows m = true → rest.head? ≠ some '=') :
    Scans m.text.toList rest [.mark m] := by
  cases m
  case assign =>
    exact scans_of_munch (w := []) rfl (munch_orEqual (h rfl) .eqEq fun _ => rfl)
  case less =>
    exact scans_of_munch (w := []) rfl (munch_orEqual (h rfl) .lessEq fun _ => rfl)
  case greater =>
    exact scans_of_munch (w := []) rfl (munch_orEqual (h rfl) .greaterEq fun _ => rfl)
  case eqEq => exact scans_of_munch (w := ['=']) rfl rfl
  case notEq => exact scans_of_munch (w := ['=']) rfl rfl
  case lessEq => exact scans_of_munch (w := ['=']) rfl rfl
  case greaterEq => exact scans_of_munch (w := ['=']) rfl rfl
  all_goals exact scans_of_munch (w := []) rfl rfl

/-! ## Words and numbers -/

/-- A text does not go on with a word or number in front of it, nor make one a literal. -/
def Apart : List Char → Prop
  | [] => True
  | '.' :: cs => ∀ d ∈ cs.head?, d.isDigit = false
  | c :: _ => inName c = false ∧ c ≠ '"' ∧ c ≠ '\''

/-- The text `w` is scanned as the tokens `ts` wherever it stands apart. -/
def Writes (w : List Char) (ts : List Token) : Prop :=
  ∀ ⦃rest : List Char⦄, Apart rest → Scans w rest ts

theorem apart_cons {c : Char} (h : inName c = false) (hpoint : c ≠ '.') (hquote : c ≠ '"')
    (hquote' : c ≠ '\'') (cs : List Char) : Apart (c :: cs) := by
  rw [Apart]
  · exact ⟨h, hquote, hquote'⟩
  · exact hpoint

theorem Apart.head {rest : List Char} (h : Apart rest) :
    ∀ c ∈ rest.head?, inName c = false ∧ c ≠ '"' ∧ c ≠ '\'' := by
  rintro c hc
  obtain ⟨cs, rfl⟩ := List.head?_eq_some_iff.1 hc
  by_cases hpoint : c = '.'
  · subst hpoint
    decide
  · rw [Apart] at h
    · exact h
    · exact hpoint

/-- A character that nothing in front of it goes on with. -/
def Severs (c : Char) : Prop := ∀ cs, Apart (c :: cs)

namespace Writes

variable {w w' : List Char} {ts ts' : List Token}

theorem nil : Writes [] [] := fun rest _ => .nil rest

theorem append (h : Writes w ts) (hstart : ∀ ⦃rest⦄, Apart rest → Apart (w' ++ rest))
    (h' : Writes w' ts') : Writes (w ++ w') (ts ++ ts') :=
  fun _ hrest => (h (hstart hrest)).append (h' hrest)

/-- A text in front of a character that it does not go on with. -/
theorem append_cons {c : Char} (h : Writes w ts) (hc : Severs c) (h' : Writes (c :: w') ts') :
    Writes (w ++ c :: w') (ts ++ ts') :=
  h.append (fun _ _ => hc _) h'

theorem blank (h : Writes w ts) : Writes (' ' :: w) ts := fun _ hrest => (h hrest).blank

/-- An operator or delimiter in front. -/
theorem mark (m : Mark) (hgrows : grows m = false) (h : Writes w ts) :
    Writes (m.text.toList ++ w) (.mark m :: ts) :=
  fun _ hrest => .token (scans_mark (by simp [hgrows])) (h hrest)

/-- An operator or delimiter and a blank in front. -/
theorem markBlank (m : Mark) (h : Writes w ts) :
    Writes (m.text.toList ++ ' ' :: w) (.mark m :: ts) :=
  fun _ hrest => .token (scans_mark fun _ => by simp) (h hrest).blank

/-- An operator or delimiter in front of something that starts with no equals sign. -/
theorem markCons (m : Mark) {c : Char} (hc : c ≠ '=') (h : Writes (c :: w) ts) :
    Writes (m.text.toList ++ c :: w) (.mark m :: ts) :=
  fun _ hrest => .token (scans_mark fun _ => by simpa using hc) (h hrest)

end Writes

/-- A text can be a name. -/
structure IsWord (s : String) : Prop where
  /-- It starts like a name and goes on like one. -/
  spelt : ∃ c cs, s.toList = c :: cs ∧ startsName c = true ∧ ∀ d ∈ cs, inName d = true
  /-- It is not reserved. -/
  free : Keyword.ofText? s = none

theorem takeWhile_inName {w rest : List Char} (hw : ∀ c ∈ w, inName c = true) (h : Apart rest) :
    (w ++ rest).takeWhile inName = w := by
  rw [List.takeWhile_append_of_pos hw]
  cases rest with
  | nil => simp
  | cons c rest => simp [(h.head c rfl).1]

theorem isDigit_of_startsName {c : Char} (h : startsName c = true) : c.isDigit = false := by
  simp only [startsName, Char.isAlpha, Char.isUpper, Char.isLower, Char.isValue, Char.reduceVal,
    ge_iff_le, UInt32.le_iff_toNat_le, UInt32.reduceToNat, Bool.or_eq_true, Bool.and_eq_true,
    decide_eq_true_eq, Char.toNat_val] at h
  simp only [Char.isDigit, Char.reduceVal, ge_iff_le, UInt32.le_iff_toNat_le, UInt32.reduceToNat,
    Bool.and_eq_false_iff, decide_eq_false_iff_not, Char.toNat_val]
  rcases h with h | rfl
  · omega
  · decide

/-- What is cut off a word with something apart behind it. -/
theorem munch_word {c : Char} {w rest : List Char} (hc : startsName c = true)
    (hw : ∀ d ∈ w, inName d = true) (h : Apart rest) :
    munch c (w ++ rest) = munchWord c (w ++ rest) := by
  have hname := inName_of_startsName hc
  have hdigit := isDigit_of_startsName hc
  have hother : ∀ d, inName d = false → c ≠ d := by
    rintro d hd rfl
    rw [hname] at hd
    cases hd
  rw [munch.eq_def, if_neg (hother _ rfl), if_neg (hother _ rfl),
    if_neg (by rintro (rfl | rfl) <;> cases hname), if_neg (by simp [hdigit]), if_pos hc]
  split
  · rename_i q more heq
    rw [if_neg]
    rintro ⟨-, hq⟩
    cases w with
    | nil =>
      obtain ⟨-, hq', hq''⟩ := h.head q (by rw [show rest = q :: more from heq]; rfl)
      exact hq.elim hq' hq''
    | cons d w =>
      obtain ⟨rfl, -⟩ := List.cons.inj heq
      have hd := hw d (List.mem_cons_self ..)
      rcases hq with rfl | rfl <;> cases hd
  · rfl

theorem isGap_of_inName {c : Char} (h : inName c = true) : isGap c = false := by
  rw [Bool.eq_false_iff]
  intro hgap
  simp only [isGap, Bool.or_eq_true, decide_eq_true_eq] at hgap
  rcases hgap with (rfl | rfl) | rfl <;> cases h

/-- A word is scanned as the token that its spelling stands for. -/
theorem writes_word {c : Char} {w : List Char} (hc : startsName c = true)
    (hw : ∀ d ∈ w, inName d = true) :
    Writes (c :: w) [match Keyword.ofText? (String.ofList (c :: w)) with
      | some k => .keyword k
      | none => .name (String.ofList (c :: w))] := by
  intro rest hrest
  refine scans_of_munch (isGap_of_inName (inName_of_startsName hc)) ?_
  rw [munch_word hc hw hrest]
  exact congrArg (fun w => (Lexeme.token (match Keyword.ofText? (String.ofList (c :: w)) with
    | some k => .keyword k
    | none => .name (String.ofList (c :: w))), w.length)) (takeWhile_inName hw hrest)

theorem writes_name {s : String} (h : IsWord s) : Writes s.toList [.name s] := by
  obtain ⟨c, cs, hlist, hc, hcs⟩ := h.spelt
  have hword := writes_word hc hcs
  rw [← hlist, String.ofList_toList, h.free] at hword
  exact hword

theorem writes_keyword (k : Keyword) : Writes k.text.toList [.keyword k] := by
  obtain ⟨c, cs, hlist⟩ : ∃ c cs, k.text.toList = c :: cs := by cases k <;> exact ⟨_, _, rfl⟩
  have hhead : startsName (k.text.toList.headD ' ') = true := by cases k <;> rfl
  have hall : k.text.toList.all inName = true := by cases k <;> rfl
  have hfound : Keyword.ofText? k.text = some k := by cases k <;> rfl
  rw [hlist] at hhead
  have hword := writes_word (c := c) hhead fun d hd =>
    List.all_eq_true.1 hall d (hlist ▸ List.mem_cons_of_mem c hd)
  rw [← hlist, String.ofList_toList, hfound] at hword
  exact hword

open Number

theorem digitCount_append {ds rest : List Char} (h : ∀ c ∈ ds, c.isDigit = true)
    (hrest : ∀ c ∈ rest.head?, c.isDigit = false) : digitCount (ds ++ rest) = ds.length :=
  congrArg List.length (span_digits h rest hrest).1

theorem isDigit_of_not_inName {c : Char} (h : inName c = false) : c.isDigit = false := by
  rw [inName, Char.isAlphanum, Bool.or_eq_false_iff, Bool.or_eq_false_iff] at h
  exact h.1.2

theorem Apart.digit {rest : List Char} (h : Apart rest) : ∀ c ∈ rest.head?, c.isDigit = false :=
  fun c hc => isDigit_of_not_inName (h.head c hc).1

/-- A number is scanned to the end of its digits. -/
theorem numberLength_numeral {ws fs rest : List Char} (h : Numeral ws fs) (hrest : Apart rest) :
    numberLength (numeral ws fs ++ rest) = (numeral ws fs).length := by
  have hexponent : exponentLength rest = 0 := by
    cases rest with
    | nil => rfl
    | cons c rest =>
      refine exponentLength_other ?_ rest
      have hc := (hrest.head c rfl).1
      rintro (rfl | rfl) <;> cases hc
  have hlength : ∀ cs, numberLength cs = digitCount cs + fractionLength (cs.drop (digitCount cs)) +
      exponentLength (cs.drop (digitCount cs + fractionLength (cs.drop (digitCount cs)))) :=
    fun _ => rfl
  by_cases hfs : fs = []
  · have hfraction : fractionLength rest = 0 := by
      rw [fractionLength.eq_def]
      split
      · rename_i ds
        have hnone : digitCount ([] ++ ds) = 0 := digitCount_append (List.forall_mem_nil _) hrest
        rw [digitsBehind, ← List.nil_append ds, hnone, if_pos rfl]
      · rfl
    rw [numeral, if_pos hfs, hlength, digitCount_append h.whole hrest.digit, List.drop_left,
      hfraction, Nat.add_zero, List.drop_left, hexponent, Nat.add_zero]
  · have hwhole : digitCount (ws ++ '.' :: (fs ++ rest)) = ws.length :=
      digitCount_append h.whole (by simp)
    have hfraction : fractionLength ('.' :: (fs ++ rest)) = fs.length + 1 := by
      rw [fractionLength, digitsBehind, digitCount_append h.fraction hrest.digit,
        if_neg (fun hzero => hfs (List.length_eq_zero_iff.1 hzero))]
    rw [numeral, if_neg hfs, List.append_assoc, List.cons_append, hlength, hwhole, List.drop_left,
      hfraction, ← List.cons_append, ← List.append_assoc]
    have hall : (ws ++ '.' :: fs).length = ws.length + (fs.length + 1) := by simp
    rw [← hall, List.drop_left, hexponent, Nat.add_zero]

theorem numeral_cons (c : Char) (ws fs : List Char) :
    numeral (c :: ws) fs = c :: numeral ws fs := by
  rw [numeral, numeral]
  split <;> rfl

theorem munch_digit {c : Char} (hc : c.isDigit = true) (cs : List Char) :
    munch c cs = munchNumber c cs := by
  have hother : ∀ d : Char, d.isDigit = false → c ≠ d := by
    rintro d hd rfl
    rw [hc] at hd
    cases hd
  rw [munch.eq_def, if_neg (hother _ rfl), if_neg (hother _ rfl),
    if_neg (not_or.2 ⟨hother _ rfl, hother _ rfl⟩), if_pos hc]

/-- **A numeral is scanned as the number that it is read as.** -/
theorem writes_numeral {ws fs : List Char} (h : Numeral ws fs) {x : Float}
    (hread : readMagnitude (numeral ws fs) = some x) : Writes (numeral ws fs) [.number x] := by
  obtain ⟨c, w, hcons, hc⟩ : ∃ c w, numeral ws fs = c :: w ∧ c.isDigit = true := by
    obtain ⟨c, ws, rfl⟩ := List.exists_cons_of_ne_nil h.ne_nil
    exact ⟨c, numeral ws fs, numeral_cons c ws fs, h.whole c (List.mem_cons_self ..)⟩
  intro rest hrest
  have hlength := numberLength_numeral h hrest
  rw [hcons] at hread hlength ⊢
  have hname : inName c = true := by simp [inName, Char.isAlphanum, hc]
  refine scans_of_munch (isGap_of_inName hname) ?_
  rw [munch_digit hc, munchNumber, ← List.cons_append, hlength, List.take_left, hread]
  rfl

/-! ## A line by itself -/

theorem map_token_ofLine {xs : List Scanned} {ts : List Token}
    (h : xs.map Scanned.lexeme = ts.map Lexeme.token) : (ofLine xs).map Located.token = ts := by
  induction xs generalizing ts with
  | nil => exact (List.map_eq_nil_iff.1 h.symm).symm
  | cons x xs ih =>
    obtain ⟨t, ts, rfl, hx, hxs⟩ := List.map_eq_cons_iff.1 h.symm
    rw [ofLine_token hx.symm, List.map_cons, ih hxs.symm]

/-- **The tokens of a text on one line that is not indented.** -/
theorem Writes.ofSource {w : List Char} {ts : List Token} (h : Writes w ts) (hline : '\n' ∉ w)
    (hfirst : ∀ c ∈ w.head?, isGap c = false) (hne : w ≠ []) :
    ∃ us last, ofSource w = .ok (us ++ ends last) ∧ us.map Located.token = ts := by
  have hnil : Apart [] := trivial
  obtain ⟨xs, hxs, hscan⟩ := h hnil .start
  rw [List.append_nil, scan, List.append_nil] at hscan
  have hfits : ∀ x ∈ (scan .start w).1, ∀ slice, x.lexeme ≠ .stray slice := by
    intro x hx slice hstray
    rw [hscan] at hx
    have hmem : x.lexeme ∈ ts.map Lexeme.token := hxs ▸ List.mem_map_of_mem hx
    rw [hstray] at hmem
    obtain ⟨t, -, ht⟩ := List.mem_map.1 hmem
    cases ht
  have hin := inLine_of_mem_scan hline hfits
  obtain ⟨c, cs, rfl⟩ := List.exists_cons_of_ne_nil hne
  obtain ⟨⟨l, n⟩, hmunch⟩ : ∃ r, munch c cs = r := ⟨_, rfl⟩
  have hhead := scan_lexeme (by simp [hfirst c rfl]) .start hmunch
  rw [hscan] at hhead hin
  obtain ⟨x, xs, rfl, hwidth⟩ : ∃ x xs', xs = x :: xs' ∧ x.width = 0 :=
    ⟨_, _, (Prod.mk.inj hhead).1, rfl⟩
  obtain ⟨t, ts, rfl, hx, hrest⟩ := List.map_eq_cons_iff.1 hxs.symm
  have henter : Layout.start.enter x.width x.span = .ok ([], ⟨[], 0, false⟩) := by rw [hwidth]; rfl
  refine ⟨ofLine (x :: xs), (Cursor.start.past (c :: cs)).span, ?_, map_token_ofLine hxs⟩
  rw [Token.ofSource, hscan]
  exact Layout.run_token hx.symm henter rfl _ (List.forall_mem_cons.1 hin).2

/-! ## Literals -/

/-- A text belongs to the literal in double quotes that it stands in, and leaves it open. -/
def Enclosed (w : List Char) : Prop := ∀ more : List Char,
  literalBody '"' (w ++ more) = (w ++ (literalBody '"' more).1, (literalBody '"' more).2)

theorem Enclosed.append {w w' : List Char} (h : Enclosed w) (h' : Enclosed w') :
    Enclosed (w ++ w') := by
  intro more
  rw [List.append_assoc, h, h', List.append_assoc]

theorem enclosed_nil : Enclosed [] := fun _ => rfl

theorem enclosed_escape {c : Char} (hc : c ≠ '\n') : Enclosed ['\\', c] := by
  intro more
  rw [List.cons_append, List.cons_append, literalBody, if_neg hc]
  rfl

/-- Text without quotes, backslashes and ends of lines is part of a literal. -/
theorem enclosed_plain {w : List Char} (h : ∀ c ∈ w, c ≠ '\\' ∧ c ≠ '\n' ∧ c ≠ '"') :
    Enclosed w := by
  induction w with
  | nil => exact enclosed_nil
  | cons c w ih =>
    obtain ⟨⟨hc, hc', hc''⟩, hw⟩ := List.forall_mem_cons.1 h
    intro more
    rw [List.cons_append, literalBody_cons hc hc' hc'', ih hw more]
    rfl

theorem enclosed_flatMap {α : Type} {f : α → List Char} {as : List α}
    (h : ∀ a ∈ as, Enclosed (f a)) : Enclosed (as.flatMap f) := by
  induction as with
  | nil => exact enclosed_nil
  | cons a as ih =>
    obtain ⟨ha, has⟩ := List.forall_mem_cons.1 h
    rw [List.flatMap_cons]
    exact ha.append (ih has)

/-- An enclosed text ends at the quote behind it. -/
theorem Enclosed.literalBody {w : List Char} (h : Enclosed w) (rest : List Char) :
    literalBody '"' (w ++ '"' :: rest) = (w, true) := by
  rw [h, literalBody_quote (by decide) (by decide), List.append_nil]

theorem writes_quoted {w : List Char} (h : Enclosed w) :
    Writes ('"' :: (w ++ ['"'])) [.text (String.ofList (unescape w))] := by
  intro rest _
  refine scans_of_munch rfl ?_
  have hmunch : munch '"' (w ++ ['"'] ++ rest) = munchText '"' (w ++ ['"'] ++ rest) := rfl
  rw [hmunch, munchText, List.append_assoc, List.cons_append, List.nil_append, h.literalBody]
  simp

theorem writes_format {w : List Char} (h : Enclosed w) :
    Writes ('f' :: '"' :: (w ++ ['"'])) [.format (String.ofList w)] := by
  intro rest _
  refine scans_of_munch rfl ?_
  have hmunch : munch 'f' ('"' :: (w ++ ['"']) ++ rest) =
      munchFormat '"' (w ++ ['"'] ++ rest) := rfl
  rw [hmunch, munchFormat, List.append_assoc, List.cons_append, List.nil_append, h.literalBody]
  simp

/-- The characters that have an escape of their own in quoted text. -/
def escaped : List Char := ['\x00', '\t', '\r', '\n', '\\', '"']

/-- Whether quoted text shows a character, as itself or as an escape that is resolved again. -/
def isShown (c : Char) : Bool := escaped.contains c || Text.isVisible c

/-- A character that is shown has an escape or stands for itself. -/
theorem isShown_cases {c : Char} (h : isShown c = true) :
    c ∈ escaped ∨ Text.quoteChar c = [c] ∧ c ≠ '\\' ∧ c ≠ '\n' ∧ c ≠ '"' := by
  by_cases hescape : c ∈ escaped
  · exact Or.inl hescape
  · have hvisible : Text.isVisible c = true := by simpa [isShown, hescape] using h
    simp only [escaped, List.mem_cons, List.not_mem_nil, or_false, not_or] at hescape
    obtain ⟨h0, ht, hr, hn, hb, hq⟩ := hescape
    refine Or.inr ⟨?_, hb, hn, hq⟩
    rw [Text.quoteChar, if_neg h0, if_neg ht, if_neg hr, if_neg hn, if_neg hb, if_neg hq,
      if_pos hvisible]

/-- What is shown of a character is resolved to it. -/
theorem unescape_quoteChar {c : Char} (h : isShown c = true) (more : List Char) :
    unescape (Text.quoteChar c ++ more) = c :: unescape more := by
  rcases isShown_cases h with hescape | ⟨hself, hb, -, -⟩
  · simp only [escaped, List.mem_cons, List.not_mem_nil, or_false] at hescape
    rcases hescape with rfl | rfl | rfl | rfl | rfl | rfl <;> simp [Text.quoteChar, unescape]
  · rw [hself, List.singleton_append, unescape]
    exact fun _ _ heq _ => hb heq

theorem enclosed_quoteChar {c : Char} (h : isShown c = true) : Enclosed (Text.quoteChar c) := by
  rcases isShown_cases h with hescape | ⟨hself, hplain⟩
  · simp only [escaped, List.mem_cons, List.not_mem_nil, or_false] at hescape
    rcases hescape with rfl | rfl | rfl | rfl | rfl | rfl <;> exact enclosed_escape (by decide)
  · rw [hself]
    exact enclosed_plain (List.forall_mem_singleton.2 hplain)

/-- **A text whose characters are all shown is scanned as itself.** -/
theorem writes_text {s : String} (h : ∀ c ∈ s.toList, isShown c = true) :
    Writes (Text.quote s).toList [.text s] := by
  have hunescape : unescape (s.toList.flatMap Text.quoteChar) = s.toList := by
    generalize s.toList = cs at h
    induction cs with
    | nil => rfl
    | cons c cs ih =>
      obtain ⟨hc, hcs⟩ := List.forall_mem_cons.1 h
      rw [List.flatMap_cons, unescape_quoteChar hc, ih hcs]
  have hquoted := writes_quoted (enclosed_flatMap fun c hc => enclosed_quoteChar (h c hc))
  rw [hunescape, String.ofList_toList] at hquoted
  rw [Text.quote, String.toList_ofList]
  exact hquoted

end Token

end ReactiveScript

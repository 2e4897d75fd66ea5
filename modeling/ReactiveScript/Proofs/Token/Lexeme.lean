import Mathlib.Data.List.TakeWhile
import ReactiveScript.Token.Scan

/-!
# The text of a lexeme

What a text looks like that is cut off as a lexeme, and that a blank behind a text does not change
what is cut off it.

* `Token.Spells` — a text spells a lexeme.
* `Token.spells_munch` — a lexeme is spelt by the text that is cut off for it.
* `Token.munch_blank` — a blank behind a text belongs to no lexeme of it but a comment.
-/

set_option autoImplicit false

namespace ReactiveScript

namespace Token

/-! ## Literals -/

theorem literalBody_cons {q c : Char} (hescape : c ≠ '\\') (hline : c ≠ '\n') (hquote : c ≠ q)
    (cs : List Char) :
    literalBody q (c :: cs) = (c :: (literalBody q cs).1, (literalBody q cs).2) := by
  rw [literalBody, if_neg hline, if_neg hquote]
  · exact fun h _ => hescape h
  · exact fun _ _ h _ => hescape h

theorem literalBody_quote {q : Char} (hescape : q ≠ '\\') (hline : q ≠ '\n') (cs : List Char) :
    literalBody q (q :: cs) = ([], true) := by
  rw [literalBody, if_neg hline, if_pos rfl]
  · exact fun h _ => hescape h
  · exact fun _ _ h _ => hescape h

/-- A backslash that something follows is matched as an escape. -/
theorem ne_backslash {c : Char} {cs : List Char} (hlast : c = '\\' → cs = [] → False)
    (hescape : ∀ d ds, c = '\\' → cs = d :: ds → False) : c ≠ '\\' := by
  rintro rfl
  cases cs with
  | nil => exact hlast rfl rfl
  | cons d ds => exact hescape d ds rfl rfl

/-- A closed body stands in front of its quote, and has no use for what comes behind that. -/
theorem literalBody_closed {q : Char} {cs body : List Char} (h : literalBody q cs = (body, true)) :
    ∃ rest, cs = body ++ q :: rest ∧
      ∀ more, literalBody q (body ++ q :: more) = (body, true) := by
  fun_induction literalBody q cs generalizing body with
  | case1 => cases h
  | case2 => cases h
  | case3 => cases h
  | case4 c cs hline body' closed hbody ih =>
    cases h
    obtain ⟨rest, rfl, hmore⟩ := ih hbody
    refine ⟨rest, rfl, fun more => ?_⟩
    simp only [List.cons_append, literalBody, if_neg hline, hmore]
  | case5 => cases h
  | case6 cs hlast hescape hline =>
    cases h
    exact ⟨cs, rfl, literalBody_quote (ne_backslash hlast hescape) hline⟩
  | case7 c cs hlast hescape hline hquote body' closed hbody ih =>
    cases h
    obtain ⟨rest, rfl, hmore⟩ := ih hbody
    refine ⟨rest, rfl, fun more => ?_⟩
    rw [List.cons_append, literalBody_cons (ne_backslash hlast hescape) hline hquote, hmore]

/-- A body of ordinary characters reaches to the next quote. -/
theorem literalBody_plain {q : Char} (hescape : q ≠ '\\') (hline : q ≠ '\n') {body : List Char}
    (h : ∀ c ∈ body, c ≠ '\\' ∧ c ≠ '\n' ∧ c ≠ q) (rest : List Char) :
    literalBody q (body ++ q :: rest) = (body, true) := by
  induction body with
  | nil => exact literalBody_quote hescape hline rest
  | cons c body ih =>
    obtain ⟨⟨hc, hc', hc''⟩, hbody⟩ := List.forall_mem_cons.1 h
    rw [List.cons_append, literalBody_cons hc hc' hc'', ih hbody]

/-- A text without a backslash has no escapes. -/
theorem unescape_plain {cs : List Char} (h : '\\' ∉ cs) : unescape cs = cs := by
  induction cs with
  | nil => rfl
  | cons c cs ih =>
    obtain ⟨hc, hcs⟩ := List.ne_and_not_mem_of_not_mem_cons h
    rw [unescape, ih hcs]
    exact fun _ _ h _ => hc h.symm

/-! ## Numbers -/

/-- Whether a character may stand in a number. -/
def inNumber (c : Char) : Bool := c.isDigit || c = '.' || c = 'e' || c = 'E' || c = '+' || c = '-'

/-- The length of a part of a number: what it counts may stand in a number, and a blank is nothing
that it could count. -/
structure IsPart (f : List Char → Nat) : Prop where
  /-- It does not count more than there is. -/
  le_length : ∀ cs, f cs ≤ cs.length
  /-- What it counts may stand in a number. -/
  inNumber : ∀ cs : List Char, ∀ c ∈ cs.take (f cs), inNumber c = true
  /-- It does not count a blank. -/
  blank : ∀ cs, f (cs ++ [' ']) = f cs

/-- Two parts, one behind the other. -/
theorem IsPart.andThen {f g : List Char → Nat} (hf : IsPart f) (hg : IsPart g) :
    IsPart fun cs => f cs + g (cs.drop (f cs)) where
  le_length cs := by
    have h := hg.le_length (cs.drop (f cs))
    rw [List.length_drop] at h
    have := hf.le_length cs
    omega
  inNumber cs c hc := by
    rw [List.take_add, List.mem_append] at hc
    rcases hc with hc | hc
    · exact hf.inNumber cs c hc
    · exact hg.inNumber _ c hc
  blank cs := by
    rw [hf.blank, List.drop_append_of_le_length (hf.le_length cs), hg.blank]

theorem takeWhile_blank {p : Char → Bool} (hp : p ' ' = false) (cs : List Char) :
    (cs ++ [' ']).takeWhile p = cs.takeWhile p := by
  rw [List.takeWhile_append, List.takeWhile_cons_of_neg (by rw [hp]; exact Bool.false_ne_true)]
  split
  · rename_i hall
    rw [List.append_nil, (List.takeWhile_prefix p).eq_of_length hall]
  · rfl

theorem length_takeWhile_le {p : Char → Bool} (cs : List Char) :
    (cs.takeWhile p).length ≤ cs.length := (List.takeWhile_prefix p).length_le

theorem take_length_takeWhile {p : Char → Bool} (cs : List Char) :
    cs.take (cs.takeWhile p).length = cs.takeWhile p :=
  (List.prefix_iff_eq_take.1 (List.takeWhile_prefix p)).symm

/-- How many digits a text starts with. -/
def digitCount (cs : List Char) : Nat := (cs.takeWhile Char.isDigit).length

theorem isPart_digitCount : IsPart digitCount where
  le_length := length_takeWhile_le
  inNumber cs c hc := by
    rw [digitCount, take_length_takeWhile] at hc
    simp [Token.inNumber, List.mem_takeWhile_imp hc]
  blank cs := congrArg List.length (takeWhile_blank rfl cs)

/-- The length of digits with `n` characters in front of them; nothing without digits. -/
def digitsBehind (n : Nat) (ds : List Char) : Nat :=
  if digitCount ds = 0 then 0 else digitCount ds + n

theorem digitsBehind_le (w ds : List Char) : digitsBehind w.length ds ≤ (w ++ ds).length := by
  have := isPart_digitCount.le_length ds
  rw [digitsBehind, List.length_append]
  split <;> omega

theorem inNumber_of_mem_digitsBehind {w ds : List Char} (hw : ∀ c ∈ w, inNumber c = true) {c : Char}
    (h : c ∈ (w ++ ds).take (digitsBehind w.length ds)) : inNumber c = true := by
  rw [digitsBehind] at h
  split at h
  · cases h
  · rw [Nat.add_comm, List.take_length_add_append, List.mem_append] at h
    rcases h with h | h
    · exact hw c h
    · exact isPart_digitCount.inNumber ds c h

theorem digitsBehind_blank (n : Nat) (ds : List Char) :
    digitsBehind n (ds ++ [' ']) = digitsBehind n ds := by
  rw [digitsBehind, isPart_digitCount.blank, digitsBehind]

/-- The length of a point with digits. -/
def fractionLength : List Char → Nat
  | '.' :: ds => digitsBehind 1 ds
  | _ => 0

theorem isPart_fractionLength : IsPart fractionLength where
  le_length cs := by
    rw [fractionLength.eq_def]
    split
    · exact digitsBehind_le ['.'] _
    · exact Nat.zero_le _
  inNumber cs c hc := by
    rw [fractionLength.eq_def] at hc
    split at hc
    · exact inNumber_of_mem_digitsBehind (w := ['.']) (by simp [Token.inNumber]) hc
    · cases hc
  blank cs := by
    fun_cases fractionLength cs with
    | case1 ds => exact digitsBehind_blank 1 ds
    | case2 cs hne =>
      cases cs with
      | nil => rfl
      | cons c cs =>
        rw [List.cons_append, fractionLength]
        exact fun ds h => hne cs (by rw [(List.cons.inj h).1])

/-- The length of the mark of an exponent with digits, a sign between them or none. -/
def exponentLength : List Char → Nat
  | e :: rest =>
    if e = 'e' ∨ e = 'E' then
      match rest with
      | '+' :: ds | '-' :: ds => digitsBehind 2 ds
      | ds => digitsBehind 1 ds
    else 0
  | [] => 0

theorem exponentLength_sign {e s : Char} (he : e = 'e' ∨ e = 'E') (hs : s = '+' ∨ s = '-')
    (ds : List Char) : exponentLength (e :: s :: ds) = digitsBehind 2 ds := by
  rcases hs with rfl | rfl
  · exact if_pos he
  · exact if_pos he

theorem exponentLength_digits {e : Char} (he : e = 'e' ∨ e = 'E') {ds : List Char}
    (hs : ∀ s ∈ ds.head?, ¬(s = '+' ∨ s = '-')) :
    exponentLength (e :: ds) = digitsBehind 1 ds := by
  rw [exponentLength, if_pos he]
  · rintro ds' rfl
    exact hs _ rfl (Or.inl rfl)
  · rintro ds' rfl
    exact hs _ rfl (Or.inr rfl)

theorem exponentLength_other {e : Char} (he : ¬(e = 'e' ∨ e = 'E')) (rest : List Char) :
    exponentLength (e :: rest) = 0 := by
  rw [exponentLength.eq_def]
  exact if_neg he

theorem isPart_exponentLength : IsPart exponentLength where
  le_length cs := by
    fun_cases exponentLength cs with
    | case1 e he ds => exact digitsBehind_le [e, '+'] ds
    | case2 e he ds => exact digitsBehind_le [e, '-'] ds
    | case3 e he ds => exact digitsBehind_le [e] ds
    | case4 => exact Nat.zero_le _
    | case5 => exact Nat.zero_le _
  inNumber cs c hc := by
    cases cs with
    | nil => cases hc
    | cons e rest =>
      by_cases he : e = 'e' ∨ e = 'E'
      · have hmark : inNumber e = true := by rcases he with rfl | rfl <;> rfl
        by_cases hs : ∀ s ∈ rest.head?, ¬(s = '+' ∨ s = '-')
        · rw [exponentLength_digits he hs] at hc
          exact inNumber_of_mem_digitsBehind (w := [e]) (by simp [hmark]) hc
        · simp only [not_forall, not_not] at hs
          obtain ⟨s, hhead, hs⟩ := hs
          obtain ⟨ds, rfl⟩ := List.head?_eq_some_iff.1 hhead
          have hsign : inNumber s = true := by rcases hs with rfl | rfl <;> rfl
          rw [exponentLength_sign he hs] at hc
          exact inNumber_of_mem_digitsBehind (w := [e, s]) (by simp [hmark, hsign]) hc
      · rw [exponentLength_other he] at hc
        cases hc
  blank cs := by
    cases cs with
    | nil => rfl
    | cons e rest =>
      rw [List.cons_append]
      by_cases he : e = 'e' ∨ e = 'E'
      · cases rest with
        | nil =>
          rw [exponentLength_digits he (by simp), exponentLength_digits he (by simp),
            digitsBehind_blank]
        | cons s ds =>
          by_cases hs : s = '+' ∨ s = '-'
          · rw [List.cons_append, exponentLength_sign he hs, exponentLength_sign he hs,
              digitsBehind_blank]
          · have hhead : ∀ ds : List Char, ∀ s' ∈ (s :: ds).head?, ¬(s' = '+' ∨ s' = '-') := by
              rintro ds s' ⟨⟩
              exact hs
            rw [List.cons_append, exponentLength_digits he (hhead _),
              exponentLength_digits he (hhead _), ← List.cons_append, digitsBehind_blank]
      · rw [exponentLength_other he, exponentLength_other he]

/-- A number is digits, a fraction and an exponent. -/
theorem isPart_numberLength : IsPart numberLength :=
  (isPart_digitCount.andThen isPart_fractionLength).andThen isPart_exponentLength

/-! ## Lexemes -/

/-- A text spells a lexeme. -/
inductive Spells : List Char → Lexeme → Prop where
  /-- The end of a line. -/
  | line : Spells ['\n'] .line
  /-- A comment. -/
  | comment (cs : List Char) : Spells ('#' :: cs) .comment
  /-- A text literal between its quotes. -/
  | text {q : Char} (hq : q = '"' ∨ q = '\'') (body : List Char) :
    Spells (q :: (body ++ [q])) (.token (.text (String.ofList (unescape body))))
  /-- A format string between its quotes. -/
  | format {q : Char} (hq : q = '"' ∨ q = '\'') (body : List Char) :
    Spells ('f' :: q :: (body ++ [q])) (.token (.format (String.ofList body)))
  /-- A number. -/
  | number {cs : List Char} (h : ∀ c ∈ cs, inNumber c = true) (x : Float) :
    Spells cs (.token (.number x))
  /-- A reserved word. -/
  | keyword {cs : List Char} (h : ∀ c ∈ cs, inName c = true) (k : Keyword) :
    Spells cs (.token (.keyword k))
  /-- A name. -/
  | name {cs : List Char} (h : ∀ c ∈ cs, inName c = true) (s : String) :
    Spells cs (.token (.name s))
  /-- An operator or delimiter. -/
  | mark (m : Mark) : Spells m.text.toList (.token (.mark m))

/-- What is cut off a text that starts with `c`, a lexeme and a number of characters behind `c`:
these characters are there, and with `c` they spell the lexeme. -/
structure Cut (c : Char) (cs : List Char) (r : Lexeme × Nat) : Prop where
  /-- The characters are there. -/
  le_length : r.2 ≤ cs.length
  /-- They spell the lexeme. -/
  spells : Spells (c :: cs.take r.2) r.1

/-- Something has been cut off that is a lexeme. -/
def Fits (r : Lexeme × Nat) : Prop := ∀ slice, r.1 ≠ .stray slice

theorem exists_munchText {q : Char} {cs : List Char} (h : Fits (munchText q cs)) :
    ∃ body rest, cs = body ++ q :: rest ∧
      ∀ more, munchText q (body ++ q :: more) =
        (.token (.text (String.ofList (unescape body))), body.length + 1) := by
  rw [munchText] at h
  split at h
  rename_i body closed hbody
  cases closed with
  | false => exact absurd rfl (h _)
  | true =>
    obtain ⟨rest, hrest, hmore⟩ := literalBody_closed hbody
    refine ⟨body, rest, hrest, fun more => ?_⟩
    rw [munchText, hmore]
    rfl

theorem exists_munchFormat {q : Char} {cs : List Char} (h : Fits (munchFormat q cs)) :
    ∃ body rest, cs = body ++ q :: rest ∧
      ∀ more, munchFormat q (body ++ q :: more) =
        (.token (.format (String.ofList body)), body.length + 2) := by
  rw [munchFormat] at h
  split at h
  rename_i body closed hbody
  cases closed with
  | false => exact absurd rfl (h _)
  | true =>
    obtain ⟨rest, hrest, hmore⟩ := literalBody_closed hbody
    refine ⟨body, rest, hrest, fun more => ?_⟩
    rw [munchFormat, hmore]
    rfl

theorem cut_munchText {q : Char} (hq : q = '"' ∨ q = '\'') {cs : List Char}
    (h : Fits (munchText q cs)) : Cut q cs (munchText q cs) := by
  obtain ⟨body, rest, rfl, hmore⟩ := exists_munchText h
  rw [hmore]
  refine ⟨?_, ?_⟩
  · rw [List.length_append, List.length_cons]
    dsimp only
    omega
  · rw [List.take_length_add_append]
    exact .text hq body

theorem cut_munchFormat {q : Char} (hq : q = '"' ∨ q = '\'') {cs : List Char}
    (h : Fits (munchFormat q cs)) : Cut 'f' (q :: cs) (munchFormat q cs) := by
  obtain ⟨body, rest, rfl, hmore⟩ := exists_munchFormat h
  rw [hmore]
  refine ⟨?_, ?_⟩
  · rw [List.length_cons, List.length_append, List.length_cons]
    dsimp only
    omega
  · rw [List.take_succ_cons, List.take_length_add_append]
    exact .format hq body

theorem cut_munchWord {c : Char} (hc : inName c = true) (cs : List Char) :
    Cut c cs (munchWord c cs) := by
  rw [munchWord]
  refine ⟨length_takeWhile_le cs, ?_⟩
  have hname : ∀ d ∈ c :: cs.take (cs.takeWhile inName).length, inName d = true := by
    rw [take_length_takeWhile]
    exact List.forall_mem_cons.2 ⟨hc, fun d hd => List.mem_takeWhile_imp hd⟩
  dsimp only
  split
  · exact .keyword hname _
  · exact .name hname _

theorem digitCount_pos {c : Char} (hc : c.isDigit = true) (cs : List Char) :
    0 < digitCount (c :: cs) := by
  rw [digitCount, List.takeWhile_cons_of_pos hc]
  exact Nat.zero_lt_succ _

theorem cut_munchNumber {c : Char} (hc : c.isDigit = true) (cs : List Char) :
    Cut c cs (munchNumber c cs) := by
  have hpos : 0 < numberLength (c :: cs) :=
    Nat.lt_of_lt_of_le (digitCount_pos hc cs) ((Nat.le_add_right _ _).trans (Nat.le_add_right _ _))
  have hle := isPart_numberLength.le_length (c :: cs)
  have hchars := isPart_numberLength.inNumber (c :: cs)
  obtain ⟨n, hn⟩ : ∃ n, numberLength (c :: cs) = n + 1 := ⟨_, (Nat.succ_pred_eq_of_pos hpos).symm⟩
  rw [munchNumber, hn]
  rw [hn] at hle hchars
  exact ⟨Nat.le_of_succ_le_succ hle, .number hchars _⟩

/-- The operator `long`, which ends in an equals sign, or else what its first character is. -/
def orEqual (cs : List Char) (long : Mark) (short : Lexeme) : Lexeme × Nat :=
  match cs with
  | '=' :: _ => (.token (.mark long), 1)
  | _ => (short, 0)

theorem cut_mark {c : Char} {m : Mark} (hm : m.text.toList = [c]) (cs : List Char) :
    Cut c cs (.token (.mark m), 0) :=
  ⟨Nat.zero_le _, (congrArg (Spells · _) hm).mp (.mark m)⟩

theorem cut_orEqual {c : Char} {cs : List Char} {long : Mark} {short : Lexeme}
    (hlong : long.text.toList = [c, '=']) (hshort : Fits (short, 0) → Cut c cs (short, 0))
    (h : Fits (orEqual cs long short)) : Cut c cs (orEqual cs long short) := by
  rw [orEqual.eq_def] at h ⊢
  split at h
  · exact ⟨Nat.succ_le_succ (Nat.zero_le _), (congrArg (Spells · _) hlong).mp (.mark long)⟩
  · exact hshort h

theorem orEqual_blank (long : Mark) (short : Lexeme) (cs : List Char) :
    orEqual (cs ++ [' ']) long short = orEqual cs long short := by
  rw [orEqual.eq_def, orEqual.eq_def]
  cases cs with
  | nil => rfl
  | cons d ds =>
    by_cases hd : d = '='
    · subst hd
      rfl
    · simp [hd]

theorem munchMark_blank (c : Char) (cs : List Char) :
    munchMark c (cs ++ [' ']) = munchMark c cs := by
  rw [munchMark.eq_def, munchMark.eq_def]
  dsimp only
  split
  case h_6 => exact orEqual_blank _ _ cs
  case h_7 => exact orEqual_blank _ _ cs
  case h_8 => exact orEqual_blank _ _ cs
  case h_9 => exact orEqual_blank _ _ cs
  all_goals rfl

theorem cut_munchMark {c : Char} {cs : List Char} (h : Fits (munchMark c cs)) :
    Cut c cs (munchMark c cs) := by
  rw [munchMark.eq_def] at h ⊢
  dsimp only at h ⊢
  split at h
  case h_6 => exact cut_orEqual rfl (fun _ => cut_mark rfl cs) h
  case h_7 => exact cut_orEqual rfl (fun h => absurd rfl (h _)) h
  case h_8 => exact cut_orEqual rfl (fun _ => cut_mark rfl cs) h
  case h_9 => exact cut_orEqual rfl (fun _ => cut_mark rfl cs) h
  case h_19 => exact absurd rfl (h _)
  all_goals exact cut_mark rfl cs

theorem inName_of_startsName {c : Char} (h : startsName c = true) : inName c = true := by
  rw [startsName, Bool.or_eq_true] at h
  rw [inName, Char.isAlphanum, Bool.or_eq_true, Bool.or_eq_true]
  exact h.imp_left Or.inl

/-- What is cut off a text is there and spells the lexeme. -/
theorem cut_munch {c : Char} {cs : List Char} {r : Lexeme × Nat} (hr : munch c cs = r)
    (h : Fits r) : Cut c cs r := by
  rw [munch.eq_def] at hr
  split at hr
  · rename_i hline
    subst hline hr
    exact ⟨Nat.zero_le _, .line⟩
  split at hr
  · rename_i hcomment
    subst hcomment hr
    exact ⟨length_takeWhile_le cs, .comment _⟩
  split at hr
  · rename_i hquote
    subst hr
    exact cut_munchText hquote h
  split at hr
  · rename_i hdigit
    subst hr
    exact cut_munchNumber hdigit cs
  split at hr
  · rename_i hname
    split at hr
    · split at hr
      · rename_i hformat
        obtain ⟨rfl, hquote⟩ := hformat
        subst hr
        exact cut_munchFormat hquote h
      · subst hr
        exact cut_munchWord (inName_of_startsName hname) _
    · subst hr
      exact cut_munchWord (inName_of_startsName hname) _
  · subst hr
    exact cut_munchMark h

theorem munchWord_blank (c : Char) (cs : List Char) :
    munchWord c (cs ++ [' ']) = munchWord c cs := by
  rw [munchWord, takeWhile_blank rfl, munchWord]

theorem munchText_blank {q : Char} {cs : List Char} (h : Fits (munchText q cs)) :
    munchText q (cs ++ [' ']) = munchText q cs := by
  obtain ⟨body, rest, rfl, hmore⟩ := exists_munchText h
  rw [List.append_assoc, List.cons_append, hmore, hmore]

theorem munchFormat_blank {q : Char} {cs : List Char} (h : Fits (munchFormat q cs)) :
    munchFormat q (cs ++ [' ']) = munchFormat q cs := by
  obtain ⟨body, rest, rfl, hmore⟩ := exists_munchFormat h
  rw [List.append_assoc, List.cons_append, hmore, hmore]

theorem munchNumber_blank (c : Char) (cs : List Char) :
    munchNumber c (cs ++ [' ']) = munchNumber c cs := by
  rw [munchNumber, munchNumber, ← List.cons_append, isPart_numberLength.blank,
    List.take_append_of_le_length (isPart_numberLength.le_length (c :: cs))]

/-- A blank behind a text belongs to no lexeme of it but a comment. -/
theorem munch_blank {c : Char} (hc : c ≠ '#') {cs : List Char} {r : Lexeme × Nat}
    (hr : munch c cs = r) (h : Fits r) : munch c (cs ++ [' ']) = r := by
  rw [munch.eq_def] at hr ⊢
  rw [if_neg hc] at hr ⊢
  split at hr
  · rename_i hline
    rw [if_pos hline]
    exact hr
  rename_i hline
  rw [if_neg hline]
  split at hr
  · rename_i hquote
    subst hr
    rw [if_pos hquote]
    exact munchText_blank h
  rename_i hquote
  rw [if_neg hquote]
  split at hr
  · rename_i hdigit
    rw [if_pos hdigit, munchNumber_blank]
    exact hr
  rename_i hdigit
  rw [if_neg hdigit]
  split at hr
  · rename_i hname
    rw [if_pos hname]
    split at hr
    · rw [List.cons_append]
      dsimp only
      split at hr
      · rename_i hformat
        subst hr
        rw [if_pos hformat]
        exact munchFormat_blank h
      · rename_i hformat
        rw [if_neg hformat, ← List.cons_append, munchWord_blank]
        exact hr
    · rw [List.nil_append]
      dsimp only
      rw [if_neg fun hformat => by simp at hformat]
      exact (munchWord_blank c []).trans hr
  · rename_i hname
    rw [if_neg hname, munchMark_blank]
    exact hr

end Token

end ReactiveScript

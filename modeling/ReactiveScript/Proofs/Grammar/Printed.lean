import ReactiveScript.Proofs.Grammar.WellFormed
import ReactiveScript.Tree.Printer

/-!
# Printed expressions

A printed expression is scanned as its tokens, operator applications in parentheses, provided that
its literals and format strings can be scanned again: texts whose characters are shown, numbers that
are finite, and interpolations without quotes that do not begin with a brace.

* `Expr.PrintsBack`, `Expr.Printable` — an expression is printed as it can be scanned again.
* `Expr.tokens` — the tokens of a printed expression.
* `Grammar.Interpolable` — a text can stand in an interpolation.
* `Expr.interpolable_print` — a printed expression without quotes can.
* `Expr.writes_print` — a printed expression is scanned as its tokens.
-/

set_option autoImplicit false

namespace ReactiveScript

namespace Expr

/-- An expression is printed with a dict in front. -/
def opensDict : Expr → Bool
  | .dict _ _ => true
  | .index _ e _ => opensDict e
  | .attribute _ e _ => opensDict e
  | _ => false

/-- A part of an expression is printed without quotes. -/
def Unquoted : Expr → Prop
  | .literal _ (.text _) => False
  | .format _ _ => False
  | _ => True

/-- A part of an expression is printed as it can be scanned again: texts are shown, numbers are not
infinite, and interpolated expressions have no quotes and do not begin with a brace. -/
def PrintsBack : Expr → Prop
  | .literal _ (.text s) => ∀ c ∈ s.toList, Token.isShown c = true
  | .literal _ (.number x) => Number.shape x ≠ .infinite false
  | .format _ ps => ∀ h ∈ Piece.holes ps, h.1.opensDict = false ∧ All Unquoted h.1
  | _ => True

/-- A well-formed expression that is printed as it can be scanned again. -/
def Printable (e : Expr) : Prop := All (fun y => y.Proper ∧ y.PrintsBack) e

theorem WellFormed.printable {e : Expr} (h : e.WellFormed) (h' : All PrintsBack e) : e.Printable :=
  fun y hy => ⟨h y hy, h' y hy⟩

theorem Printable.self {e : Expr} (h : e.Printable) : e.Proper ∧ e.PrintsBack :=
  h e (mem_parts_self e)

/-! ## The tokens of printed expressions -/

open Token

/-- The token of a literal; lists and dicts are no literals. -/
def literalToken : Value → Token
  | .null => .keyword .kwNone
  | .bool true => .keyword .kwTrue
  | .bool false => .keyword .kwFalse
  | .number x => .number x
  | .text s => .text s
  | .list _ | .dict _ => .finish

/-- Tokens with commas between them. -/
def separated (tss : List (List Token)) : List Token := List.intercalate [.mark .comma] tss

mutual

/-- The tokens of a printed expression. -/
def tokens : Expr → List Token
  | .literal _ v => [literalToken v]
  | .name _ n => [.name n]
  | .format _ ps => [.format (printPieces ps)]
  | .list _ es => .mark .openBracket :: (separated (allTokens es) ++ [.mark .closeBracket])
  | .dict _ es => .mark .openBrace :: (separated (entryTokens es) ++ [.mark .closeBrace])
  | .unary _ op e => .mark .openParen :: op.token :: (tokens e ++ [.mark .closeParen])
  | .binary _ op l r =>
    .mark .openParen :: (tokens l ++ .mark op.mark :: (tokens r ++ [.mark .closeParen]))
  | .logical _ op l r =>
    .mark .openParen :: (tokens l ++ .keyword op.keyword :: (tokens r ++ [.mark .closeParen]))
  | .call _ f args kws =>
    .name f :: .mark .openParen ::
      (separated (allTokens args ++ keywordTokens kws) ++ [.mark .closeParen])
  | .index _ e i => tokens e ++ .mark .openBracket :: (tokens i ++ [.mark .closeBracket])
  | .attribute _ e a => tokens e ++ [.mark .dot, .name a]

/-- The tokens of the expressions of a list. -/
def allTokens : List Expr → List (List Token)
  | [] => []
  | e :: es => tokens e :: allTokens es

/-- The tokens of the entries of a dict. -/
def entryTokens : List (Expr × Expr) → List (List Token)
  | [] => []
  | (k, v) :: es => (tokens k ++ .mark .colon :: tokens v) :: entryTokens es

/-- The tokens of the keyword arguments of a call. -/
def keywordTokens : List (String × Expr) → List (List Token)
  | [] => []
  | (k, v) :: es => (.name k :: .mark .assign :: tokens v) :: keywordTokens es

end

end Expr

/-! ## Texts in interpolations -/

namespace Grammar

open Text

/-- Behind every colon of a text there is a blank. -/
def ColonsSpaced : List Char → Prop
  | [] => True
  | c :: cs => (c = ':' → cs.head? = some ' ') ∧ ColonsSpaced cs

theorem ColonsSpaced.append {cs cs' : List Char} (h : ColonsSpaced cs) (h' : ColonsSpaced cs') :
    ColonsSpaced (cs ++ cs') := by
  induction cs with
  | nil => exact h'
  | cons c cs ih =>
    refine ⟨fun hc => ?_, ih h.2⟩
    obtain ⟨more, rfl⟩ := List.head?_eq_some_iff.1 (h.1 hc)
    rfl

theorem colonsSpaced_of_not_mem {cs : List Char} (h : ':' ∉ cs) : ColonsSpaced cs := by
  induction cs with
  | nil => trivial
  | cons c cs ih =>
    exact ⟨fun hc => absurd (hc ▸ List.mem_cons_self ..) h,
      ih fun hmem => h (List.mem_cons_of_mem c hmem)⟩

/-- A text can stand in an interpolation: its brackets are balanced, nothing in it needs an escape,
and no colon in it introduces a number of places. -/
structure Interpolable (cs : List Char) : Prop where
  /-- Its brackets are balanced. -/
  balanced : Text.Balanced cs
  /-- Nothing in it needs an escape. -/
  plain : ∀ c ∈ cs, c ≠ '\\' ∧ c ≠ '\n' ∧ c ≠ '"'
  /-- No colon introduces a number of places. -/
  colons : ColonsSpaced cs

/-- A character without a meaning of its own in an interpolation. -/
def Inert (c : Char) : Prop :=
  (¬opens c ∧ ¬closes c) ∧ (c ≠ '\\' ∧ c ≠ '\n' ∧ c ≠ '"') ∧ c ≠ ':'

instance (c : Char) : Decidable (Inert c) :=
  inferInstanceAs (Decidable ((¬opens c ∧ ¬closes c) ∧ (c ≠ '\\' ∧ c ≠ '\n' ∧ c ≠ '"') ∧ c ≠ ':'))

/-- A character that differs from those with a meaning of their own has none. -/
theorem inert_of {p : Char → Bool} (hp : "\x7b[(\x7d])\\\n\":".toList.all (fun c => !p c) = true)
    {c : Char} (hc : p c = true) : Inert c := by
  have hother : ∀ d, p d = false → c ≠ d := by
    rintro d hd rfl
    rw [hc] at hd
    cases hd
  simp only [String.reduceToList, List.all_cons, List.all_nil, Bool.and_true, Bool.and_eq_true,
    Bool.not_eq_true'] at hp
  obtain ⟨h₁, h₂, h₃, h₄, h₅, h₆, h₇, h₈, h₉, h₁₀⟩ := hp
  simp only [Inert, opens, closes, not_or]
  exact ⟨⟨⟨hother _ h₁, hother _ h₂, hother _ h₃⟩, hother _ h₄, hother _ h₅, hother _ h₆⟩,
    ⟨hother _ h₇, hother _ h₈, hother _ h₉⟩, hother _ h₁₀⟩

theorem inert_of_inName {c : Char} (hc : Token.inName c = true) : Inert c := inert_of rfl hc

theorem inert_of_isDigit {c : Char} (hc : c.isDigit = true) : Inert c := inert_of rfl hc

namespace Interpolable

variable {cs cs' : List Char}

theorem append (h : Interpolable cs) (h' : Interpolable cs') : Interpolable (cs ++ cs') where
  balanced := by rw [Text.Balanced, depthAfter_append, h.balanced, Option.bind_some, h'.balanced]
  plain := List.forall_mem_append.2 ⟨h.plain, h'.plain⟩
  colons := h.colons.append h'.colons

/-- Characters without a meaning of their own. -/
theorem inert (h : ∀ c ∈ cs, Inert c) : Interpolable cs where
  balanced := balanced_of_plain fun c hc => (h c hc).1
  plain c hc := (h c hc).2.1
  colons := colonsSpaced_of_not_mem fun hmem => (h _ hmem).2.2 rfl

/-- A text between brackets. -/
theorem bracket {o c : Char} (ho : opens o) (hc : closes c) (h : Interpolable cs) :
    Interpolable (o :: (cs ++ [c])) where
  balanced := by
    rw [Text.Balanced, depthAfter_cons_of_opens ho, depthAfter_append, h.balanced.depthAfter,
      Option.bind_some, depthAfter_succ_of_closes hc, depthAfter_nil]
  plain := by
    refine List.forall_mem_cons.2 ⟨?_, List.forall_mem_append.2 ⟨h.plain, ?_⟩⟩
    · rcases ho with rfl | rfl | rfl <;> simp
    · rcases hc with rfl | rfl | rfl <;> simp
  colons := by
    refine ⟨?_, h.colons.append (colonsSpaced_of_not_mem ?_)⟩
    · rcases ho with rfl | rfl | rfl <;> exact fun heq => absurd heq (by decide)
    · rcases hc with rfl | rfl | rfl <;> decide

theorem word {s : String} (h : Token.IsWord s) : Interpolable s.toList := by
  obtain ⟨c, cs, hlist, hc, hcs⟩ := h.spelt
  rw [hlist]
  exact inert (List.forall_mem_cons.2
    ⟨inert_of_inName (Token.inName_of_startsName hc), fun d hd => inert_of_inName (hcs d hd)⟩)

/-- Texts with commas and blanks between them. -/
theorem intercalate {ws : List String} (h : ∀ w ∈ ws, Interpolable w.toList) :
    Interpolable (String.intercalate ", " ws).toList := by
  induction ws with
  | nil => exact inert (List.forall_mem_nil _)
  | cons w ws ih =>
    obtain ⟨hw, hws⟩ := List.forall_mem_cons.1 h
    cases ws with
    | nil => simpa using hw
    | cons w' ws =>
      rw [String.intercalate_cons_cons, String.toList_append, String.toList_append]
      exact (hw.append (inert (by simp [Inert]))).append (ih hws)

theorem blank : Interpolable [' '] := inert (by simp [Inert])

end Interpolable

end Grammar

namespace Expr

open Grammar

/-- A part of an expression that is well formed, can be scanned again and has no quotes. -/
def Inset (e : Expr) : Prop := (e.Proper ∧ e.PrintsBack) ∧ e.Unquoted

/-- The text of a finite number without a sign is a numeral, and reads back as the number. -/
theorem exists_numeral_numberText {x : Float} (h : Number.Unsigned x)
    (hx : Number.shape x ≠ .infinite false) : ∃ ws fs, Number.Numeral ws fs ∧
      (Value.numberText x).toList = Number.numeral ws fs ∧
      Number.readMagnitude (Number.numeral ws fs) = some x := by
  obtain ⟨m, e, hshape⟩ := h.resolve_left hx
  rw [Value.numberText]
  split
  · rename_i hwhole
    simp only [Bool.and_eq_true, decide_eq_true_eq] at hwhole
    exact Number.exists_numeral_toInt64 hshape hwhole.1 hwhole.2
  · exact Number.exists_numeral_text "nan" hshape

theorem inert_numeral {ws fs : List Char} (h : Number.Numeral ws fs) :
    ∀ c ∈ Number.numeral ws fs, Inert c := by
  have hwhole : ∀ c ∈ ws, Inert c := fun c hc => inert_of_isDigit (h.whole c hc)
  have hfraction : ∀ c ∈ fs, Inert c := fun c hc => inert_of_isDigit (h.fraction c hc)
  rw [Number.numeral]
  split
  · exact hwhole
  · exact List.forall_mem_append.2 ⟨hwhole, List.forall_mem_cons.2 ⟨by decide, hfraction⟩⟩

theorem interpolable_literal {s : Span} {v : Value} (h : Inset (.literal s v)) :
    Interpolable (printLiteral v).toList := by
  obtain ⟨⟨hliteral, hback⟩, hunquoted⟩ := h
  cases v with
  | null => exact .inert (by simp [printLiteral, Value.display, Value.repr, Inert])
  | bool b => cases b <;> exact .inert (by simp [printLiteral, Value.display, Value.repr, Inert])
  | number x =>
    obtain ⟨ws, fs, hnumeral, htext, -⟩ := exists_numeral_numberText hliteral hback
    have hprint : (printLiteral (.number x)).toList = Number.numeral ws fs := htext
    rw [hprint]
    exact .inert (inert_numeral hnumeral)
  | text t => exact hunquoted.elim
  | list _ => exact hliteral.elim
  | dict _ => exact hliteral.elim

mutual

/-- **A printed expression without quotes can stand in an interpolation.** -/
theorem interpolable_print : (e : Expr) → All Inset e → Interpolable e.print.toList
  | .literal _ v, h => interpolable_literal (all_literal.1 h)
  | .name _ n, h => .word (all_name.1 h).1.1
  | .format _ ps, h => (all_format.1 h).1.2.elim
  | .list _ es, h => by
    simp only [print, String.toList_append, String.reduceToList, List.cons_append, List.nil_append]
    exact .bracket (by decide) (by decide)
      (.intercalate (interpolable_printAll es (all_list.1 h).2))
  | .dict _ es, h => by
    simp only [print, String.toList_append, String.reduceToList, List.cons_append, List.nil_append]
    exact .bracket (by decide) (by decide)
      (.intercalate (interpolable_printEntries es (all_dict.1 h).2))
  | .unary _ op e, h => by
    simp only [print, String.toList_append, String.reduceToList, List.cons_append, List.nil_append]
    have hop : Interpolable op.text.toList := .inert (by cases op <;> simp [UnaryOp.text, Inert])
    exact .bracket (by decide) (by decide) (hop.append (interpolable_print e (all_unary.1 h).2))
  | .binary _ op l r, h => by
    simp only [print, String.toList_append, String.reduceToList, List.cons_append, List.nil_append]
    have hop : Interpolable op.text.toList := .inert (by cases op <;> simp [BinaryOp.text, Inert])
    obtain ⟨-, hl, hr⟩ := all_binary.1 h
    exact .bracket (by decide) (by decide) (.append (.append (.append (.append
      (interpolable_print l hl) .blank) hop) .blank) (interpolable_print r hr))
  | .logical _ op l r, h => by
    simp only [print, String.toList_append, String.reduceToList, List.cons_append, List.nil_append]
    have hop : Interpolable op.text.toList := .inert (by cases op <;> simp [LogicalOp.text, Inert])
    obtain ⟨-, hl, hr⟩ := all_logical.1 h
    exact .bracket (by decide) (by decide) (.append (.append (.append (.append
      (interpolable_print l hl) .blank) hop) .blank) (interpolable_print r hr))
  | .call _ f args kws, h => by
    obtain ⟨hself, hargs, hkws⟩ := all_call.1 h
    simp only [print, String.toList_append, String.reduceToList]
    rw [List.append_assoc, List.append_assoc]
    refine (Interpolable.word hself.1.1.1).append (.bracket (by decide) (by decide)
      (.intercalate fun w hw => ?_))
    rcases List.mem_append.1 hw with hw | hw
    · exact interpolable_printAll args hargs w hw
    · exact interpolable_printKeywords kws (fun k hk => ⟨hself.1.1.2.1 k hk, hkws k hk⟩) w hw
  | .index _ e i, h => by
    obtain ⟨-, he, hi⟩ := all_index.1 h
    simp only [print, String.toList_append, String.reduceToList]
    rw [List.append_assoc, List.append_assoc]
    exact (interpolable_print e he).append (.bracket (by decide) (by decide)
      (interpolable_print i hi))
  | .attribute _ e a, h => by
    obtain ⟨hself, he⟩ := all_attribute.1 h
    simp only [print, String.toList_append, String.reduceToList]
    exact .append (.append (interpolable_print e he) (.inert (by simp [Inert]))) (.word hself.1.1)

theorem interpolable_printAll : (es : List Expr) → (∀ e ∈ es, All Inset e) →
    ∀ w ∈ printAll es, Interpolable w.toList
  | [], _ => List.forall_mem_nil _
  | e :: es, h => by
    obtain ⟨he, hes⟩ := List.forall_mem_cons.1 h
    exact List.forall_mem_cons.2 ⟨interpolable_print e he, interpolable_printAll es hes⟩

theorem interpolable_printEntries : (es : List (Expr × Expr)) →
    (∀ e ∈ es, All Inset e.1 ∧ All Inset e.2) → ∀ w ∈ printEntries es, Interpolable w.toList
  | [], _ => List.forall_mem_nil _
  | (k, v) :: es, h => by
    obtain ⟨⟨hk, hv⟩, hes⟩ := List.forall_mem_cons.1 h
    refine List.forall_mem_cons.2 ⟨?_, interpolable_printEntries es hes⟩
    rw [String.toList_append, String.toList_append]
    exact .append (.append (interpolable_print k hk) ⟨by decide, by simp, by simp [ColonsSpaced]⟩)
      (interpolable_print v hv)

theorem interpolable_printKeywords : (es : List (String × Expr)) →
    (∀ e ∈ es, Token.IsWord e.1 ∧ All Inset e.2) → ∀ w ∈ printKeywords es, Interpolable w.toList
  | [], _ => List.forall_mem_nil _
  | (k, v) :: es, h => by
    obtain ⟨⟨hk, hv⟩, hes⟩ := List.forall_mem_cons.1 h
    refine List.forall_mem_cons.2 ⟨?_, interpolable_printKeywords es hes⟩
    rw [String.toList_append, String.toList_append]
    exact .append (.append (.word hk) (.inert (by simp [Inert]))) (interpolable_print v hv)

end

/-! ## The first character -/

/-- What a printed expression may start with. -/
def Leads (c : Char) : Prop :=
  Token.inName c = true ∨ c = '"' ∨ c = '(' ∨ c = '[' ∨ c = '{'

theorem Leads.ne {c d : Char} (h : Leads c) (hd : Token.inName d = false)
    (hmarks : d ∉ ['"', '(', '[', '{']) : c ≠ d := by
  rintro rfl
  simp only [List.mem_cons, List.not_mem_nil, or_false] at hmarks
  refine h.elim (fun hc => ?_) hmarks
  rw [hd] at hc
  cases hc

theorem Leads.isGap {c : Char} (h : Leads c) : Token.isGap c = false := by
  rcases h with hname | rfl | rfl | rfl | rfl
  · exact Token.isGap_of_inName hname
  all_goals rfl

theorem exists_cons_of_word {s : String} (h : Token.IsWord s) (more : List Char) :
    ∃ c cs, s.toList ++ more = c :: cs ∧ Token.inName c = true := by
  obtain ⟨c, cs, hlist, hc, -⟩ := h.spelt
  exact ⟨c, cs ++ more, by rw [hlist, List.cons_append], Token.inName_of_startsName hc⟩

theorem exists_cons_of_numeral {ws fs : List Char} (h : Number.Numeral ws fs) :
    ∃ c cs, Number.numeral ws fs = c :: cs ∧ Token.inName c = true := by
  obtain ⟨c, ws, rfl⟩ := List.exists_cons_of_ne_nil h.ne_nil
  have hc := h.whole c (List.mem_cons_self ..)
  exact ⟨c, _, Token.numeral_cons c ws fs, by simp [Token.inName, Char.isAlphanum, hc]⟩

/-- **What a printed expression starts with**: with a brace only if that belongs to a dict. -/
theorem exists_cons_print : (e : Expr) → e.Printable →
    ∃ c cs, e.print.toList = c :: cs ∧ Leads c ∧ (e.opensDict = false → c ≠ '{')
  | .literal _ .null, _ => by
    simp only [print, printLiteral, Value.display, Value.repr, String.reduceToList]
    exact ⟨'N', _, rfl, Or.inl rfl, fun _ => by decide⟩
  | .literal _ (.bool b), _ => by
    cases b <;> simp [print, printLiteral, Value.display, Value.repr, Leads, Token.inName]
  | .literal _ (.number x), h => by
    obtain ⟨ws, fs, hnumeral, htext, -⟩ := exists_numeral_numberText h.self.1 h.self.2
    obtain ⟨c, cs, hcons, hc⟩ := exists_cons_of_numeral hnumeral
    exact ⟨c, cs, htext.trans hcons, Or.inl hc, fun _ => by rintro rfl; cases hc⟩
  | .literal _ (.text s), _ =>
    ⟨'"', _, String.toList_ofList, Or.inr (Or.inl rfl), fun _ => by decide⟩
  | .literal _ (.list _), h | .literal _ (.dict _), h => h.self.1.elim
  | .name _ n, h => by
    obtain ⟨c, cs, hcons, hc⟩ := exists_cons_of_word h.self.1 []
    exact ⟨c, cs, (List.append_nil _).symm.trans hcons, Or.inl hc, fun _ => by rintro rfl; cases hc⟩
  | .format _ ps, _ => by
    simp only [print, String.toList_append, String.reduceToList, List.cons_append]
    exact ⟨'f', _, rfl, Or.inl rfl, fun _ => by decide⟩
  | .list _ es, _ => by
    simp only [print, String.toList_append, String.reduceToList, List.cons_append]
    exact ⟨'[', _, rfl, by simp [Leads], fun _ => by decide⟩
  | .dict _ es, _ => by
    simp only [print, String.toList_append, String.reduceToList, List.cons_append]
    exact ⟨'{', _, rfl, by simp [Leads], Bool.noConfusion⟩
  | .unary _ op e, _ => by
    simp only [print, String.toList_append, String.reduceToList, List.cons_append]
    exact ⟨'(', _, rfl, by simp [Leads], fun _ => by decide⟩
  | .binary _ op l r, _ => by
    simp only [print, String.toList_append, String.reduceToList, List.cons_append]
    exact ⟨'(', _, rfl, by simp [Leads], fun _ => by decide⟩
  | .logical _ op l r, _ => by
    simp only [print, String.toList_append, String.reduceToList, List.cons_append]
    exact ⟨'(', _, rfl, by simp [Leads], fun _ => by decide⟩
  | .call _ f args kws, h => by
    simp only [print, String.toList_append, List.append_assoc]
    obtain ⟨c, cs, hcons, hc⟩ := exists_cons_of_word h.self.1.1 _
    exact ⟨c, cs, hcons, Or.inl hc, fun _ => by rintro rfl; cases hc⟩
  | .index _ e i, h => by
    obtain ⟨c, cs, hcons, hc, hbrace⟩ := exists_cons_print e (all_index.1 h).2.1
    simp only [print, String.toList_append, hcons, List.cons_append]
    exact ⟨c, _, rfl, hc, hbrace⟩
  | .attribute _ e a, h => by
    obtain ⟨c, cs, hcons, hc, hbrace⟩ := exists_cons_print e (all_attribute.1 h).2
    simp only [print, String.toList_append, hcons, List.cons_append]
    exact ⟨c, _, rfl, hc, hbrace⟩

/-! ## The scan -/

open Token

theorem text_mark (op : BinaryOp) : op.text = op.mark.text := by cases op <;> rfl

theorem text_keyword (op : LogicalOp) : op.text = op.keyword.text := by cases op <;> rfl

theorem severs {c : Char} (h : inName c = false ∧ c ≠ '.' ∧ c ≠ '"' ∧ c ≠ '\'') : Severs c :=
  apart_cons h.1 h.2.1 h.2.2.1 h.2.2.2

theorem writes_separated {ws : List String} {tss : List (List Token)}
    (h : List.Forall₂ (fun w ts => Writes w.toList ts) ws tss) :
    Writes (String.intercalate ", " ws).toList (separated tss) := by
  induction h with
  | nil => exact .nil
  | @cons w ts ws tss hw hws ih =>
    cases hws with
    | nil => simpa [separated] using hw
    | cons hw' hws =>
      rw [String.intercalate_cons_cons, String.toList_append, String.toList_append, separated,
        List.intercalate_cons_cons, List.append_assoc, List.append_assoc]
      exact hw.append_cons (severs (by decide)) (.mark .comma rfl ih.blank)

/-! ### Format strings -/

theorem enclosed_formatChar (c : Char) : Enclosed (formatChar c) := by
  rw [formatChar]
  split_ifs with h₁ h₂ h₃ h₄ h₅
  · exact enclosed_escape (by decide)
  · exact enclosed_escape (by decide)
  · exact enclosed_escape (by decide)
  · exact enclosed_plain (by simp)
  · exact enclosed_plain (by simp)
  · exact enclosed_plain (List.forall_mem_singleton.2 ⟨h₁, h₃, h₂⟩)

theorem enclosed_digits (n : Nat) : Enclosed (toString n).toList := by
  refine enclosed_plain fun c hc => ?_
  have hdigit : c.isDigit = true := by
    rw [toList_toString] at hc
    exact Number.isDigit_toDigits hc
  exact (inert_of_isDigit hdigit).2.1

/-- Interpolations that can be scanned again are part of the format string that they stand in. -/
theorem enclosed_printPieces {ps : List Piece}
    (h : ∀ h ∈ Piece.holes ps, All Inset h.1) : Enclosed (printPieces ps).toList := by
  have hmark : ∀ w : List Char, (∀ c ∈ w, Inert c ∨ c = '{' ∨ c = '}' ∨ c = ':') → Enclosed w := by
    intro w hw
    refine enclosed_plain fun c hc => ?_
    rcases hw c hc with hinert | rfl | rfl | rfl
    · exact hinert.2.1
    all_goals decide
  induction ps with
  | nil => exact enclosed_nil
  | cons p ps ih =>
    cases p with
    | text s =>
      have hholes : ∀ h ∈ Piece.holes ps, All Inset h.1 := h
      simp only [printPieces, printFormatText, String.toList_append, String.toList_ofList]
      exact (enclosed_flatMap fun c _ => enclosed_formatChar c).append (ih hholes)
    | hole e places =>
      obtain ⟨he, hholes⟩ : All Inset e ∧ ∀ h ∈ Piece.holes ps, All Inset h.1 :=
        List.forall_mem_cons.1 h
      have hprint : Enclosed e.print.toList := enclosed_plain (interpolable_print e he).plain
      cases places with
      | none =>
        simp only [printPieces, String.toList_append]
        exact .append (.append (.append (hmark _ (by simp)) hprint) (hmark _ (by simp))) (ih hholes)
      | some n =>
        simp only [printPieces, String.toList_append]
        refine .append (.append (.append (.append (.append (hmark _ (by simp)) hprint)
          (hmark _ ?_)) (enclosed_digits n)) (hmark _ ?_)) (ih hholes)
        · simp [Inert]
        · simp [Inert]

/-! ### Expressions -/

/-- The expressions in the holes of a format string that can be scanned again have no quotes. -/
theorem Printable.inset {s : Span} {ps : List Piece} (h : Printable (.format s ps)) :
    ∀ h ∈ Piece.holes ps, All Inset h.1 := by
  intro hole hhole y hy
  exact ⟨(all_format.1 h).2 hole hhole y hy, (h.self.2 hole hhole).2 y hy⟩

theorem writes_literal {s : Span} {v : Value} (h : Printable (.literal s v)) :
    Writes (printLiteral v).toList [literalToken v] := by
  obtain ⟨hliteral, hback⟩ := h.self
  match v with
  | .null => exact writes_keyword .kwNone
  | .bool true => exact writes_keyword .kwTrue
  | .bool false => exact writes_keyword .kwFalse
  | .number x =>
    obtain ⟨ws, fs, hnumeral, htext, hread⟩ := exists_numeral_numberText hliteral hback
    have hprint : (printLiteral (.number x)).toList = Number.numeral ws fs := htext
    rw [hprint]
    exact writes_numeral hnumeral hread
  | .text t => exact writes_text hback
  | .list _ | .dict _ => exact hliteral.elim

mutual

/-- **A printed expression is scanned as its tokens.** -/
theorem writes_print : (e : Expr) → e.Printable → Writes e.print.toList e.tokens
  | .literal _ v, h => writes_literal h
  | .name _ n, h => writes_name h.self.1
  | .format _ ps, h => by
    have hformat := writes_format (enclosed_printPieces h.inset)
    rw [String.ofList_toList] at hformat
    simpa [print, tokens] using hformat
  | .list _ es, h => by
    simp only [print, String.toList_append, String.reduceToList, List.cons_append, List.nil_append]
    have hitems := writes_separated (writes_printAll es (all_list.1 h).2)
    exact .mark .openBracket rfl (hitems.append_cons (severs (by decide))
      (.mark .closeBracket rfl .nil))
  | .dict _ es, h => by
    simp only [print, String.toList_append, String.reduceToList, List.cons_append, List.nil_append]
    exact .mark .openBrace rfl ((writes_separated
      (writes_printEntries es (all_dict.1 h).2)).append_cons (severs (by decide))
      (.mark .closeBrace rfl .nil))
  | .unary _ op e, h => by
    have he := (writes_print e (all_unary.1 h).2).append_cons (severs (by decide))
      (.mark .closeParen rfl .nil)
    simp only [print, String.toList_append, String.reduceToList, List.cons_append, List.nil_append,
      List.append_assoc]
    cases op with
    | neg => exact .mark .openParen rfl (.mark .minus rfl he)
    | not =>
      exact .mark .openParen rfl ((writes_keyword .kwNot).append_cons (severs (by decide)) he.blank)
  | .binary _ op l r, h => by
    obtain ⟨-, hl, hr⟩ := all_binary.1 h
    simp only [print, String.toList_append, String.reduceToList, List.cons_append, List.nil_append,
      List.append_assoc, text_mark]
    have hright := (writes_print r hr).append_cons (severs (by decide)) (.mark .closeParen rfl .nil)
    exact .mark .openParen rfl ((writes_print l hl).append_cons (severs (by decide))
      (hright.markBlank op.mark).blank)
  | .logical _ op l r, h => by
    obtain ⟨-, hl, hr⟩ := all_logical.1 h
    simp only [print, String.toList_append, String.reduceToList, List.cons_append, List.nil_append,
      List.append_assoc, text_keyword]
    have hright := (writes_print r hr).append_cons (severs (by decide)) (.mark .closeParen rfl .nil)
    exact .mark .openParen rfl ((writes_print l hl).append_cons (severs (by decide))
      ((writes_keyword op.keyword).append_cons (severs (by decide)) hright.blank).blank)
  | .call _ f args kws, h => by
    obtain ⟨hself, hargs, hkws⟩ := all_call.1 h
    have hitems := List.rel_append (writes_printAll args hargs)
      (writes_printKeywords kws fun k hk => ⟨hself.1.2.1 k hk, hkws k hk⟩)
    simp only [print, String.toList_append, String.reduceToList, List.cons_append, List.nil_append,
      List.append_assoc]
    exact (writes_name hself.1.1).append_cons (severs (by decide)) (.mark .openParen rfl
      ((writes_separated hitems).append_cons (severs (by decide)) (.mark .closeParen rfl .nil)))
  | .index _ e i, h => by
    obtain ⟨-, he, hi⟩ := all_index.1 h
    simp only [print, String.toList_append, String.reduceToList, List.cons_append, List.nil_append,
      List.append_assoc]
    exact (writes_print e he).append_cons (severs (by decide)) (.mark .openBracket rfl
      ((writes_print i hi).append_cons (severs (by decide)) (.mark .closeBracket rfl .nil)))
  | .attribute _ e a, h => by
    obtain ⟨hself, he⟩ := all_attribute.1 h
    obtain ⟨c, cs, hlist, hc, -⟩ := hself.1.spelt
    simp only [print, String.toList_append, String.reduceToList, List.cons_append, List.nil_append,
      List.append_assoc]
    refine (writes_print e he).append (fun rest _ => ?_) (.mark .dot rfl (writes_name hself.1))
    rw [hlist]
    rintro d ⟨⟩
    exact isDigit_of_startsName hc

theorem writes_printAll : (es : List Expr) → (∀ e ∈ es, e.Printable) →
    List.Forall₂ (fun w ts => Writes w.toList ts) (printAll es) (allTokens es)
  | [], _ => .nil
  | e :: es, h => by
    obtain ⟨he, hes⟩ := List.forall_mem_cons.1 h
    exact .cons (writes_print e he) (writes_printAll es hes)

theorem writes_printEntries : (es : List (Expr × Expr)) →
    (∀ e ∈ es, e.1.Printable ∧ e.2.Printable) →
    List.Forall₂ (fun w ts => Writes w.toList ts) (printEntries es) (entryTokens es)
  | [], _ => .nil
  | (k, v) :: es, h => by
    obtain ⟨⟨hk, hv⟩, hes⟩ := List.forall_mem_cons.1 h
    refine .cons ?_ (writes_printEntries es hes)
    simp only [String.toList_append, String.reduceToList, List.cons_append, List.nil_append,
      List.append_assoc]
    exact (writes_print k hk).append_cons (severs (by decide))
      (.mark .colon rfl (writes_print v hv).blank)

theorem writes_printKeywords : (es : List (String × Expr)) →
    (∀ e ∈ es, IsWord e.1 ∧ e.2.Printable) →
    List.Forall₂ (fun w ts => Writes w.toList ts) (printKeywords es) (keywordTokens es)
  | [], _ => .nil
  | (k, v) :: es, h => by
    obtain ⟨⟨hk, hv⟩, hes⟩ := List.forall_mem_cons.1 h
    obtain ⟨c, cs, hcons, hc, -⟩ := exists_cons_print v hv
    have hvalue := writes_print v hv
    refine .cons ?_ (writes_printKeywords es hes)
    simp only [String.toList_append, String.reduceToList, List.cons_append, List.nil_append,
      List.append_assoc, hcons]
    rw [hcons] at hvalue
    exact (writes_name hk).append_cons (severs (by decide))
      (hvalue.markCons .assign (hc.ne rfl (by decide)))

end

end Expr

end ReactiveScript

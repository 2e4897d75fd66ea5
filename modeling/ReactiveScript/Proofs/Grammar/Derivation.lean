import Mathlib.Data.List.Basic
import ReactiveScript.Grammar.Expression
import ReactiveScript.Proofs.Token.Position

/-!
# The grammar of expressions

Which tokens are an expression, and which tree they spell, said without a parser:

* or          := and ("or" and)*
* and         := not ("and" not)*
* not         := "not" not | comparison
* comparison  := sum (comparing sum)?
* sum         := product (("+" | "-") product)*
* product     := signed (("*" | "/" | "%") signed)*
* signed      := "-" signed | applied
* applied     := primary ("(" arguments ")" | "[" or "]" | "." name)*

A repetition groups to the left, so it is a phrase of its own level followed by one of the next
level.

* `Grammar.Phrase` — the tokens of a phrase of a level, given those of the expressions in brackets.
* `Grammar.Expression` — the tokens of an expression.
* `Grammar.Phrase.exists_cons` — what a phrase may start with.
* `Grammar.Phrase.not_nameAssign` — no phrase starts like a keyword argument.
-/

set_option autoImplicit false

namespace ReactiveScript

namespace BinaryOp

/-- The operator that a binary operation is written as. -/
def mark : BinaryOp → Mark
  | .add => .plus
  | .sub => .minus
  | .mul => .star
  | .div => .slash
  | .mod => .percent
  | .eq => .eqEq
  | .notEq => .notEq
  | .lt => .less
  | .le => .lessEq
  | .gt => .greater
  | .ge => .greaterEq

end BinaryOp

namespace LogicalOp

/-- The reserved word that a logical operation is written as. -/
def keyword : LogicalOp → Keyword
  | .and => .kwAnd
  | .or => .kwOr

end LogicalOp

namespace UnaryOp

/-- The token that an operation with one operand is written as. -/
def token : UnaryOp → Token
  | .neg => .mark .minus
  | .not => .keyword .kwNot

end UnaryOp

namespace Grammar

/-! ## Levels -/

/-- How tight a phrase binds. -/
inductive Level where
  /-- Phrases joined by `or`. -/
  | disjunction
  /-- Phrases joined by `and`. -/
  | conjunction
  /-- A phrase behind `not`. -/
  | negation
  /-- Two phrases compared. -/
  | comparison
  /-- Sums and differences. -/
  | sum
  /-- Products, quotients and remainders. -/
  | product
  /-- A phrase behind a negative sign. -/
  | signed
  /-- Calls, items and attributes. -/
  | applied
  /-- Literals, names and brackets. -/
  | primary
  deriving DecidableEq

namespace Level

/-- The next level, which binds tighter. -/
def tighter : Level → Level
  | .disjunction => .conjunction
  | .conjunction => .negation
  | .negation => .comparison
  | .comparison => .sum
  | .sum => .product
  | .product => .signed
  | .signed => .applied
  | .applied => .primary
  | .primary => .primary

/-- The level of a logical operation. -/
def ofLogical : LogicalOp → Level
  | .and => .conjunction
  | .or => .disjunction

/-- The level of a binary operation. -/
def ofBinary : BinaryOp → Level
  | .add | .sub => .sum
  | .mul | .div | .mod => .product
  | .eq | .notEq | .lt | .le | .gt | .ge => .comparison

/-- The level of an operation with one operand. -/
def ofUnary : UnaryOp → Level
  | .neg => .signed
  | .not => .negation

end Level

/-! ## Lists in brackets -/

/-- What tokens spell. -/
abbrev Spelling (α : Type) : Type := List Located → α → Prop

/-- Items with commas between them, and perhaps one behind the last. -/
inductive Items {α : Type} (item : Spelling α) : Spelling (List α)
  /-- No items. -/
  | nil : Items item [] []
  /-- One item without a comma behind it. -/
  | last {ts : List Located} {a : α} (h : item ts a) : Items item ts [a]
  /-- An item and a comma in front of others, perhaps of none. -/
  | cons {ts us : List Located} {a : α} {as : List α} (h : item ts a) (s : Span)
    (hs : Items item us as) : Items item (ts ++ ⟨.mark .comma, s⟩ :: us) (a :: as)

/-- An entry of a dict. -/
inductive Entry (inner : Spelling Expr) : Spelling (Expr × Expr)
  /-- A key, a colon and a value. -/
  | intro {ts us : List Located} {k v : Expr} (hk : inner ts k) (s : Span) (hv : inner us v) :
    Entry inner (ts ++ ⟨.mark .colon, s⟩ :: us) (k, v)

/-- An argument of a call. -/
inductive Argument (inner : Spelling Expr) : Spelling (Expr ⊕ String × Expr)
  /-- A positional argument. -/
  | positional {ts : List Located} {e : Expr} (h : inner ts e) : Argument inner ts (.inl e)
  /-- A keyword argument. -/
  | keyword {ts : List Located} {e : Expr} (k : String) (s s' : Span) (h : inner ts e) :
    Argument inner (⟨.name k, s⟩ :: ⟨.mark .assign, s'⟩ :: ts) (.inr (k, e))

/-! ## Phrases -/

/-- The phrases of a level, if `inner` are those in brackets and `format` gives the pieces of a
format string. -/
inductive Phrase (inner : Spelling Expr) (format : FormatParser) : Level → Spelling Expr
  /-- A phrase of the next level. -/
  | tighter {l : Level} {ts : List Located} {e : Expr} (h : Phrase inner format l.tighter ts e) :
    Phrase inner format l ts e
  /-- A logical operation. -/
  | logical (op : LogicalOp) {ts us : List Located} {l r : Expr}
    (hl : Phrase inner format (.ofLogical op) ts l) (s : Span)
    (hr : Phrase inner format (Level.ofLogical op).tighter us r) :
    Phrase inner format (.ofLogical op) (ts ++ ⟨.keyword op.keyword, s⟩ :: us)
      (.logical l.span op l r)
  /-- A comparison. -/
  | compare (op : BinaryOp) (hop : .ofBinary op = Level.comparison) {ts us : List Located}
    {l r : Expr} (hl : Phrase inner format .sum ts l) (s : Span)
    (hr : Phrase inner format .sum us r) :
    Phrase inner format .comparison (ts ++ ⟨.mark op.mark, s⟩ :: us) (.binary l.span op l r)
  /-- A binary operation that is no comparison. -/
  | binary (op : BinaryOp) (hop : .ofBinary op ≠ Level.comparison) {ts us : List Located}
    {l r : Expr} (hl : Phrase inner format (.ofBinary op) ts l) (s : Span)
    (hr : Phrase inner format (Level.ofBinary op).tighter us r) :
    Phrase inner format (.ofBinary op) (ts ++ ⟨.mark op.mark, s⟩ :: us) (.binary l.span op l r)
  /-- An operation with one operand. -/
  | unary (op : UnaryOp) (s : Span) {ts : List Located} {e : Expr}
    (h : Phrase inner format (.ofUnary op) ts e) :
    Phrase inner format (.ofUnary op) (⟨op.token, s⟩ :: ts) (.unary s op e)
  /-- A call of a name, which may stand in parentheses, with positional arguments and then keyword
  arguments of different names. -/
  | call {ts us : List Located} {span : Span} {f : String}
    (hf : Phrase inner format .primary ts (.name span f)) (s s' : Span) {args : List Expr}
    {kws : List (String × Expr)}
    (hargs : Items (Argument inner) us (args.map Sum.inl ++ kws.map Sum.inr))
    (hkws : (kws.map Prod.fst).Nodup) :
    Phrase inner format .applied
      (ts ++ ⟨.mark .openParen, s⟩ :: (us ++ [⟨.mark .closeParen, s'⟩])) (.call span f args kws)
  /-- An item. -/
  | index {ts us : List Located} {e i : Expr} (he : Phrase inner format .applied ts e)
    (s s' : Span) (hi : inner us i) :
    Phrase inner format .applied
      (ts ++ ⟨.mark .openBracket, s⟩ :: (us ++ [⟨.mark .closeBracket, s'⟩])) (.index e.span e i)
  /-- An attribute. -/
  | field {ts : List Located} {e : Expr} (he : Phrase inner format .applied ts e) (s s' : Span)
    (a : String) :
    Phrase inner format .applied (ts ++ [⟨.mark .dot, s⟩, ⟨.name a, s'⟩]) (.attribute e.span e a)
  /-- A number. -/
  | number (x : Float) (s : Span) :
    Phrase inner format .primary [⟨.number x, s⟩] (.literal s (.number x))
  /-- Text literals behind one another, joined. -/
  | text (t : String) (s : Span) (more : List (String × Span)) :
    Phrase inner format .primary (⟨.text t, s⟩ :: more.map fun m => ⟨.text m.1, m.2⟩)
      (.literal s (.text (t ++ (more.map Prod.fst).foldr (· ++ ·) "")))
  /-- A format string. -/
  | format {raw : String} {s : Span} {ps : List Piece} (h : format raw s = .ok ps) :
    Phrase inner format .primary [⟨.format raw, s⟩] (.format s ps)
  /-- The true value. -/
  | true (s : Span) :
    Phrase inner format .primary [⟨.keyword .kwTrue, s⟩] (.literal s (.bool Bool.true))
  /-- The false value. -/
  | false (s : Span) :
    Phrase inner format .primary [⟨.keyword .kwFalse, s⟩] (.literal s (.bool Bool.false))
  /-- The absent value. -/
  | none (s : Span) : Phrase inner format .primary [⟨.keyword .kwNone, s⟩] (.literal s .null)
  /-- A name. -/
  | name (n : String) (s : Span) : Phrase inner format .primary [⟨.name n, s⟩] (.name s n)
  /-- An expression in parentheses, which leave no trace. -/
  | parens {ts : List Located} {e : Expr} (s s' : Span) (h : inner ts e) :
    Phrase inner format .primary (⟨.mark .openParen, s⟩ :: (ts ++ [⟨.mark .closeParen, s'⟩])) e
  /-- A list. -/
  | list {ts : List Located} {es : List Expr} (s s' : Span) (h : Items inner ts es) :
    Phrase inner format .primary (⟨.mark .openBracket, s⟩ :: (ts ++ [⟨.mark .closeBracket, s'⟩]))
      (.list s es)
  /-- A dict. -/
  | dict {ts : List Located} {es : List (Expr × Expr)} (s s' : Span)
    (h : Items (Entry inner) ts es) :
    Phrase inner format .primary (⟨.mark .openBrace, s⟩ :: (ts ++ [⟨.mark .closeBrace, s'⟩]))
      (.dict s es)

/-- The expressions: phrases of the loosest level, with expressions in their brackets. -/
inductive Expression (format : FormatParser) : Spelling Expr
  /-- A phrase. -/
  | intro {ts : List Located} {e : Expr} (h : Phrase (Expression format) format .disjunction ts e) :
    Expression format ts e

/-! ## How phrases start -/

/-- Whether a token starts a literal, a name or a bracket. -/
def startsPrimary : Token → Bool
  | .number _ | .text _ | .format _ | .name _ => true
  | .keyword .kwTrue | .keyword .kwFalse | .keyword .kwNone => true
  | .mark .openParen | .mark .openBracket | .mark .openBrace => true
  | _ => false

/-- Whether the phrases of a level may start with a negative sign. -/
def Level.signs : Level → Bool
  | .applied | .primary => false
  | _ => true

/-- Whether the phrases of a level may start with `not`. -/
def Level.negates : Level → Bool
  | .disjunction | .conjunction | .negation => true
  | _ => false

/-- A phrase of a level may start with a token. -/
def Level.Starts (l : Level) (t : Token) : Prop :=
  startsPrimary t = true ∨ t = .mark .minus ∧ l.signs = true ∨
    t = .keyword .kwNot ∧ l.negates = true

theorem Level.Starts.of_tighter {l : Level} {t : Token} (h : l.tighter.Starts t) : l.Starts t := by
  refine h.imp_right (Or.imp (And.imp_right fun hsigns => ?_) (And.imp_right fun hnegates => ?_))
  · cases l <;> first | rfl | cases hsigns
  · cases l <;> first | rfl | cases hnegates

section Phrase

variable {inner : Spelling Expr} {format : FormatParser} {l : Level} {ts : List Located} {e : Expr}

/-- **What a phrase may start with.** -/
theorem Phrase.exists_cons (h : Phrase inner format l ts e) :
    ∃ t more, ts = t :: more ∧ l.Starts t.token := by
  induction h with
  | tighter h ih =>
    obtain ⟨t, more, rfl, hstarts⟩ := ih
    exact ⟨t, more, rfl, hstarts.of_tighter⟩
  | logical op hl s hr ihl ihr =>
    obtain ⟨t, more, rfl, hstarts⟩ := ihl
    exact ⟨t, _, rfl, hstarts⟩
  | compare op hop hl s hr ihl ihr =>
    obtain ⟨t, more, rfl, hstarts⟩ := ihl
    exact ⟨t, _, rfl, hstarts⟩
  | binary op hop hl s hr ihl ihr =>
    obtain ⟨t, more, rfl, hstarts⟩ := ihl
    exact ⟨t, _, rfl, hstarts⟩
  | unary op s h ih =>
    refine ⟨_, _, rfl, ?_⟩
    cases op
    · exact Or.inr (Or.inl ⟨rfl, rfl⟩)
    · exact Or.inr (Or.inr ⟨rfl, rfl⟩)
  | call hf s s' hargs hkws ih =>
    obtain ⟨t, more, rfl, hstarts⟩ := ih
    exact ⟨t, _, rfl, hstarts.of_tighter (l := .applied)⟩
  | index he s s' hi ih =>
    obtain ⟨t, more, rfl, hstarts⟩ := ih
    exact ⟨t, _, rfl, hstarts⟩
  | field he s s' a ih =>
    obtain ⟨t, more, rfl, hstarts⟩ := ih
    exact ⟨t, _, rfl, hstarts⟩
  | _ => exact ⟨_, _, rfl, Or.inl rfl⟩

/-- The tokens start like a keyword argument. -/
def NameAssign (ts : List Located) : Prop :=
  ∃ k s s' more, ts = ⟨.name k, s⟩ :: ⟨.mark .assign, s'⟩ :: more

/-- One phrase behind another starts like a keyword argument only if the first does, or the token
behind it is an equals sign. -/
theorem nameAssign_append {t : Located} {us : List Located} (hts : ts ≠ [])
    (ht : t.token ≠ .mark .assign) (h : NameAssign (ts ++ t :: us)) : NameAssign ts := by
  obtain ⟨k, s, s', more, heq⟩ := h
  match ts with
  | [] => exact absurd rfl hts
  | [x] =>
    obtain ⟨-, hrest⟩ := List.cons.inj heq
    exact absurd (congrArg Located.token (List.cons.inj hrest).1) ht
  | x :: y :: rest =>
    obtain ⟨rfl, hrest⟩ := List.cons.inj heq
    obtain ⟨rfl, -⟩ := List.cons.inj hrest
    exact ⟨k, s, s', rest, rfl⟩

/-- **No phrase starts like a keyword argument.** -/
theorem Phrase.not_nameAssign (h : Phrase inner format l ts e) : ¬NameAssign ts := by
  have hne : ∀ {l : Level} {ts : List Located} {e : Expr}, Phrase inner format l ts e → ts ≠ [] := by
    intro l ts e h
    obtain ⟨t, more, rfl, -⟩ := h.exists_cons
    exact List.cons_ne_nil t more
  induction h with
  | tighter h ih => exact ih
  | logical op hl s hr ihl ihr => exact fun h => ihl (nameAssign_append (hne hl) (by simp) h)
  | compare op hop hl s hr ihl ihr =>
    exact fun h => ihl (nameAssign_append (hne hl) (by cases op <;> simp [BinaryOp.mark]) h)
  | binary op hop hl s hr ihl ihr =>
    exact fun h => ihl (nameAssign_append (hne hl) (by cases op <;> simp [BinaryOp.mark]) h)
  | unary op s h ih =>
    rintro ⟨k, s, s', more, heq⟩
    cases op <;> cases heq
  | call hf s s' hargs hkws ih => exact fun h => ih (nameAssign_append (hne hf) (by simp) h)
  | index he s s' hi ih => exact fun h => ih (nameAssign_append (hne he) (by simp) h)
  | field he s s' a ih => exact fun h => ih (nameAssign_append (hne he) (by simp) h)
  | _ =>
    rintro ⟨k, s, s', more, heq⟩
    cases heq

theorem Expression.exists_cons (h : Expression format ts e) :
    ∃ t more, ts = t :: more ∧ Level.Starts .disjunction t.token := by
  obtain ⟨hphrase⟩ := h
  exact hphrase.exists_cons

theorem Expression.not_nameAssign (h : Expression format ts e) : ¬NameAssign ts := by
  obtain ⟨hphrase⟩ := h
  exact hphrase.not_nameAssign

end Phrase

end Grammar

end ReactiveScript

import ReactiveScript.Token
import ReactiveScript.Tree

/-!
# The expression grammar

A parser reads a phrase from the front of a list of tokens and returns it with the tokens behind
it.  Expressions bind, loosest first, by

* `or`, then `and`, both grouping to the left;
* `not`, which nests to the right;
* one comparison, which does not chain;
* sums and differences, then products, quotients and remainders, all grouping to the left;
* the negative sign, which nests to the right;
* calls, items and attributes behind a primary expression.

Each level is a function of the level below it.  What stands inside brackets is again a whole
expression; the levels take the parser for it as an argument `inner`, so that none of them is
recursive, and `expressionAt` ties the knot: its number bounds how deep brackets may nest, and
`expression` allows as many levels as there are tokens.  In the same way the parser for the body
of a format string is an argument `format`.

* `expression` — an expression at the front of the tokens.
* `wholeExpression` — an expression that is followed by nothing but ends of lines.
-/

set_option autoImplicit false

namespace ReactiveScript

namespace Grammar

/-! ## Parsers -/

/-- A parser of phrases of a type. -/
abbrev Parser (α : Type) : Type := List Located → Except SyntaxError (α × List Located)

/-- The parser of the body of a format string that starts at a span. -/
abbrev FormatParser : Type := String → Span → Except SyntaxError (List Piece)

/-- The token at the front. -/
def peek : List Located → Token
  | [] => .finish
  | t :: _ => t.token

/-- Where the token at the front stands. -/
def here : List Located → Span
  | [] => .none
  | t :: _ => t.span

/-- Fail because something else would have to stand at the front. -/
def unexpected {α : Type} (what : String) (ts : List Located) : Except SyntaxError α :=
  .error ⟨.expected what (peek ts), here ts⟩

/-- The tokens behind a token that has to stand at the front. -/
def expect (t : Token) : List Located → Except SyntaxError (List Located)
  | [] => unexpected t.display []
  | x :: ts => if x.token = t then .ok ts else unexpected t.display (x :: ts)

/-- A name that has to stand at the front. -/
def expectName : Parser String
  | ⟨.name s, _⟩ :: ts => .ok (s, ts)
  | ts => unexpected "identifier" ts

/-- Drop the ends of lines at the front. -/
def skipLines : List Located → List Located
  | ⟨.newline, _⟩ :: ts => skipLines ts
  | ts => ts

/-- What follows an item in a bracketed list: a comma and perhaps further items, or the closing
mark. -/
def afterItem {α : Type} (close : Mark) (more : Parser α) (nothing : α) : Parser α
  | ⟨.mark .comma, _⟩ :: ts => more ts
  | ts => do
    let ts ← expect (.mark close) ts
    .ok (nothing, ts)

/-! ## Primary expressions -/

/-- The text literals at the front, joined. -/
def joinTexts : List Located → String × List Located
  | ⟨.text s, _⟩ :: ts =>
    let (more, ts) := joinTexts ts
    (s ++ more, ts)
  | ts => ("", ts)

/-- The items of a list up to its closing bracket; the number bounds how many. -/
def listItems (inner : Parser Expr) : Nat → Parser (List Expr)
  | 0, ts => unexpected (Token.mark .closeBracket).display ts
  | n + 1, ts =>
    match ts with
    | ⟨.mark .closeBracket, _⟩ :: ts => .ok ([], ts)
    | ts => do
      let (e, ts) ← inner ts
      let (es, ts) ← afterItem .closeBracket (listItems inner n) [] ts
      .ok (e :: es, ts)

/-- The entries of a dict up to its closing brace; the number bounds how many. -/
def dictEntries (inner : Parser Expr) : Nat → Parser (List (Expr × Expr))
  | 0, ts => unexpected (Token.mark .closeBrace).display ts
  | n + 1, ts =>
    match ts with
    | ⟨.mark .closeBrace, _⟩ :: ts => .ok ([], ts)
    | ts => do
      let (k, ts) ← inner ts
      let ts ← expect (.mark .colon) ts
      let (v, ts) ← inner ts
      let (es, ts) ← afterItem .closeBrace (dictEntries inner n) [] ts
      .ok ((k, v) :: es, ts)

/-- A literal, a variable, or a bracketed expression. -/
def primary (inner : Parser Expr) (format : FormatParser) : Parser Expr
  | ⟨.number x, s⟩ :: ts => .ok (.literal s (.number x), ts)
  | ⟨.text t, s⟩ :: ts =>
    let (more, ts) := joinTexts ts
    .ok (.literal s (.text (t ++ more)), ts)
  | ⟨.format raw, s⟩ :: ts => do
    let pieces ← format raw s
    .ok (.format s pieces, ts)
  | ⟨.keyword .kwTrue, s⟩ :: ts => .ok (.literal s (.bool true), ts)
  | ⟨.keyword .kwFalse, s⟩ :: ts => .ok (.literal s (.bool false), ts)
  | ⟨.keyword .kwNone, s⟩ :: ts => .ok (.literal s .null, ts)
  | ⟨.name n, s⟩ :: ts => .ok (.name s n, ts)
  | ⟨.mark .openParen, _⟩ :: ts => do
    let (e, ts) ← inner ts
    let ts ← expect (.mark .closeParen) ts
    .ok (e, ts)
  | ⟨.mark .openBracket, s⟩ :: ts => do
    let (es, ts) ← listItems inner (ts.length + 1) ts
    .ok (.list s es, ts)
  | ⟨.mark .openBrace, s⟩ :: ts => do
    let (es, ts) ← dictEntries inner (ts.length + 1) ts
    .ok (.dict s es, ts)
  | ts => unexpected "expression" ts

/-! ## Calls, items and attributes -/

/-- The arguments of a call up to its closing parenthesis; `seen` holds the keywords so far, and the
number bounds how many arguments follow. -/
def arguments (inner : Parser Expr) :
    Nat → List String → Parser (List Expr × List (String × Expr))
  | 0, _, ts => unexpected (Token.mark .closeParen).display ts
  | n + 1, seen, ts =>
    match ts with
    | ⟨.mark .closeParen, _⟩ :: ts => .ok (([], []), ts)
    | ⟨.name k, s⟩ :: ⟨.mark .assign, _⟩ :: ts =>
      if k ∈ seen then .error ⟨.repeatedKeyword k, s⟩
      else do
        let (e, ts) ← inner ts
        let ((args, kws), ts) ← afterItem .closeParen (arguments inner n (k :: seen)) ([], []) ts
        .ok ((args, (k, e) :: kws), ts)
    | ts =>
      if seen ≠ [] then .error ⟨.latePositional, here ts⟩
      else do
        let (e, ts) ← inner ts
        let ((args, kws), ts) ← afterItem .closeParen (arguments inner n seen) ([], []) ts
        .ok ((e :: args, kws), ts)

/-- The calls, items and attributes behind an expression; the number bounds how many. -/
def trailers (inner : Parser Expr) : Nat → Expr → Parser Expr
  | 0, e, ts => .ok (e, ts)
  | n + 1, e, ts =>
    match ts with
    | ⟨.mark .openParen, s⟩ :: ts =>
      match e with
      | .name span f => do
        let ((args, kws), ts) ← arguments inner (ts.length + 1) [] ts
        trailers inner n (.call span f args kws) ts
      | _ => .error ⟨.unnamedCallee, s⟩
    | ⟨.mark .openBracket, _⟩ :: ts => do
      let (i, ts) ← inner ts
      let ts ← expect (.mark .closeBracket) ts
      trailers inner n (.index e.span e i) ts
    | ⟨.mark .dot, _⟩ :: ts => do
      let (a, ts) ← expectName ts
      trailers inner n (.attribute e.span e a) ts
    | ts => .ok (e, ts)

/-- A primary expression with everything behind it. -/
def applied (inner : Parser Expr) (format : FormatParser) : Parser Expr := fun ts => do
  let (e, ts) ← primary inner format ts
  trailers inner ts.length e ts

/-! ## Operators -/

/-- An expression with any number of negative signs in front. -/
def signed (inner : Parser Expr) (format : FormatParser) : Parser Expr
  | ⟨.mark .minus, s⟩ :: ts => do
    let (e, ts) ← signed inner format ts
    .ok (.unary s .neg e, ts)
  | ts => applied inner format ts

/-- How an operator joins two operands, given the token it is written as. -/
abbrev Joining : Type := Token → Option (Expr → Expr → Expr)

/-- The operators of a chain behind its first operand; the number bounds how many. -/
def chainFrom (join? : Joining) (operand : Parser Expr) : Nat → Expr → Parser Expr
  | 0, l, ts => .ok (l, ts)
  | n + 1, l, ts =>
    match join? (peek ts) with
    | none => .ok (l, ts)
    | some join => do
      let (r, ts) ← operand (ts.drop 1)
      chainFrom join? operand n (join l r) ts

/-- Operands joined by operators that group to the left. -/
def chain (join? : Joining) (operand : Parser Expr) : Parser Expr := fun ts => do
  let (l, ts) ← operand ts
  chainFrom join? operand ts.length l ts

/-- The application of a binary operator. -/
def applyBinary (op : BinaryOp) (l r : Expr) : Expr := .binary l.span op l r

/-- The application of a logical operator. -/
def applyLogical (op : LogicalOp) (l r : Expr) : Expr := .logical l.span op l r

/-- Products, quotients and remainders. -/
def product? : Joining
  | .mark .star => some (applyBinary .mul)
  | .mark .slash => some (applyBinary .div)
  | .mark .percent => some (applyBinary .mod)
  | _ => none

/-- Sums and differences. -/
def sum? : Joining
  | .mark .plus => some (applyBinary .add)
  | .mark .minus => some (applyBinary .sub)
  | _ => none

/-- Comparisons. -/
def comparison? : Joining
  | .mark .eqEq => some (applyBinary .eq)
  | .mark .notEq => some (applyBinary .notEq)
  | .mark .less => some (applyBinary .lt)
  | .mark .lessEq => some (applyBinary .le)
  | .mark .greater => some (applyBinary .gt)
  | .mark .greaterEq => some (applyBinary .ge)
  | _ => none

/-- Conjunctions. -/
def conjunction? : Joining
  | .keyword .kwAnd => some (applyLogical .and)
  | _ => none

/-- Disjunctions. -/
def disjunction? : Joining
  | .keyword .kwOr => some (applyLogical .or)
  | _ => none

/-- A product. -/
def product (inner : Parser Expr) (format : FormatParser) : Parser Expr :=
  chain product? (signed inner format)

/-- A sum. -/
def sum (inner : Parser Expr) (format : FormatParser) : Parser Expr :=
  chain sum? (product inner format)

/-- A sum, or two of them compared. -/
def comparison (inner : Parser Expr) (format : FormatParser) : Parser Expr := fun ts => do
  let (l, ts) ← sum inner format ts
  match comparison? (peek ts) with
  | none => .ok (l, ts)
  | some join =>
    let (r, ts) ← sum inner format (ts.drop 1)
    .ok (join l r, ts)

/-- A comparison with any number of negations in front. -/
def negation (inner : Parser Expr) (format : FormatParser) : Parser Expr
  | ⟨.keyword .kwNot, s⟩ :: ts => do
    let (e, ts) ← negation inner format ts
    .ok (.unary s .not e, ts)
  | ts => comparison inner format ts

/-- A conjunction. -/
def conjunction (inner : Parser Expr) (format : FormatParser) : Parser Expr :=
  chain conjunction? (negation inner format)

/-- A disjunction. -/
def disjunction (inner : Parser Expr) (format : FormatParser) : Parser Expr :=
  chain disjunction? (conjunction inner format)

/-! ## Expressions -/

/-- An expression whose brackets nest less than `n` levels deep. -/
def expressionAt (format : FormatParser) : Nat → Parser Expr
  | 0, ts => unexpected "expression" ts
  | n + 1, ts => disjunction (expressionAt format n) format ts

/-- An expression. -/
def expression (format : FormatParser) : Parser Expr := fun ts =>
  expressionAt format (ts.length + 1) ts

/-- An expression that ends the text. -/
def wholeExpression (format : FormatParser) (ts : List Located) : Except SyntaxError Expr := do
  let (e, ts) ← expression format ts
  let _ ← expect .finish (skipLines ts)
  .ok e

end Grammar

end ReactiveScript

import ReactiveScript.Number.Reading
import ReactiveScript.Token

/-!
# Scanning

The first pass over a script cuts it into lexemes, always taking the longest text that is one: a
token, a comment or the end of a line.  Blanks between lexemes are skipped.  Each lexeme is
recorded with the position of its first character and with the width of the line before it, which
is the indentation of the line if nothing but blanks stands there.

A text that is no lexeme ends the scan.  For a character that starts none it is that character; for
a literal that is not closed on its line it is what there is of the literal.

* `munch` — the lexeme at the front of a text and how many characters it has.
* `scan` — all lexemes of a text.
-/

set_option autoImplicit false

namespace ReactiveScript

namespace Token

/-! ## Literals -/

/-- Resolve the escapes of a literal; a backslash before any other character stands for itself. -/
def unescape : List Char → List Char
  | '\\' :: c :: cs =>
    if c = 'n' then '\n' :: unescape cs
    else if c = 't' then '\t' :: unescape cs
    else if c = 'r' then '\r' :: unescape cs
    else if c = '0' then '\x00' :: unescape cs
    else if c = '\\' ∨ c = '"' ∨ c = '\'' then c :: unescape cs
    else '\\' :: c :: unescape cs
  | c :: cs => c :: unescape cs
  | [] => []

/-- The body of a literal up to its closing quote `q`, and whether that quote is there.  An escaped
character is part of the body whatever it is, but a line ends the literal. -/
def literalBody (q : Char) : List Char → List Char × Bool
  | [] => ([], false)
  | ['\\'] => ([], false)
  | '\\' :: c :: cs =>
    if c = '\n' then ([], false)
    else
      let (body, closed) := literalBody q cs
      ('\\' :: c :: body, closed)
  | c :: cs =>
    if c = '\n' then ([], false)
    else if c = q then ([], true)
    else
      let (body, closed) := literalBody q cs
      (c :: body, closed)

/-! ## Lexemes -/

/-- What the scanner recognises. -/
inductive Lexeme where
  /-- A token. -/
  | token (t : Token)
  /-- A comment. -/
  | comment
  /-- The end of a line. -/
  | line
  /-- Text that is no lexeme. -/
  | stray (slice : String)
  deriving DecidableEq

/-- Whether a character may start a name. -/
def startsName (c : Char) : Bool := c.isAlpha || c = '_'

/-- Whether a character may stand in a name. -/
def inName (c : Char) : Bool := c.isAlphanum || c = '_'

/-- Whether a character is skipped between lexemes. -/
def isGap (c : Char) : Bool := c = ' ' || c = '\t' || c = '\r'

/-- How many characters of `cs` continue a number: digits, then a point with digits, then an
exponent with digits; a part that is not complete is left alone. -/
def numberLength (cs : List Char) : Nat :=
  let whole := (cs.takeWhile Char.isDigit).length
  let fraction := match cs.drop whole with
    | '.' :: rest =>
      let n := (rest.takeWhile Char.isDigit).length
      if n = 0 then 0 else n + 1
    | _ => 0
  let exponent := match cs.drop (whole + fraction) with
    | e :: rest =>
      if e = 'e' ∨ e = 'E' then
        match rest with
        | '+' :: ds | '-' :: ds =>
          let n := (ds.takeWhile Char.isDigit).length
          if n = 0 then 0 else n + 2
        | ds =>
          let n := (ds.takeWhile Char.isDigit).length
          if n = 0 then 0 else n + 1
      else 0
    | [] => 0
  whole + fraction + exponent

/-- A text literal that starts with the quote `q`; the count leaves the quote out. -/
def munchText (q : Char) (cs : List Char) : Lexeme × Nat :=
  let (body, closed) := literalBody q cs
  if closed then (.token (.text (String.ofList (unescape body))), body.length + 1)
  else (.stray (String.ofList (q :: body)), body.length)

/-- A format string whose `f` and quote `q` have been read; the count leaves the `f` out. -/
def munchFormat (q : Char) (cs : List Char) : Lexeme × Nat :=
  let (body, closed) := literalBody q cs
  if closed then (.token (.format (String.ofList body)), body.length + 2)
  else (.stray (String.ofList ('f' :: q :: body)), body.length + 1)

/-- A name or reserved word that starts with `c`. -/
def munchWord (c : Char) (cs : List Char) : Lexeme × Nat :=
  let rest := cs.takeWhile inName
  let s := String.ofList (c :: rest)
  let t := match Keyword.ofText? s with
    | some k => .keyword k
    | none => .name s
  (.token t, rest.length)

/-- A number that starts with `c`. -/
def munchNumber (c : Char) (cs : List Char) : Lexeme × Nat :=
  let n := numberLength (c :: cs)
  (.token (.number ((Number.readMagnitude ((c :: cs).take n)).getD 0)), n - 1)

/-- An operator or delimiter that starts with `c`, the longer one if two fit. -/
def munchMark (c : Char) (cs : List Char) : Lexeme × Nat :=
  let mark (m : Mark) (n : Nat) : Lexeme × Nat := (.token (.mark m), n)
  let withEq (long : Mark) (short : Lexeme) : Lexeme × Nat :=
    match cs with
    | '=' :: _ => mark long 1
    | _ => (short, 0)
  match c with
  | '+' => mark .plus 0
  | '-' => mark .minus 0
  | '*' => mark .star 0
  | '/' => mark .slash 0
  | '%' => mark .percent 0
  | '=' => withEq .eqEq (.token (.mark .assign))
  | '!' => withEq .notEq (.stray "!")
  | '<' => withEq .lessEq (.token (.mark .less))
  | '>' => withEq .greaterEq (.token (.mark .greater))
  | '(' => mark .openParen 0
  | ')' => mark .closeParen 0
  | '[' => mark .openBracket 0
  | ']' => mark .closeBracket 0
  | '{' => mark .openBrace 0
  | '}' => mark .closeBrace 0
  | ',' => mark .comma 0
  | ':' => mark .colon 0
  | '.' => mark .dot 0
  | _ => (.stray (String.ofList [c]), 0)

/-- The lexeme that starts with `c`, which is no gap, and how many characters of `cs` belong to
it. -/
def munch (c : Char) (cs : List Char) : Lexeme × Nat :=
  if c = '\n' then (.line, 0)
  else if c = '#' then (.comment, (cs.takeWhile (· ≠ '\n')).length)
  else if c = '"' ∨ c = '\'' then munchText c cs
  else if c.isDigit then munchNumber c cs
  else if startsName c then
    match cs with
    | q :: rest =>
      if c = 'f' ∧ (q = '"' ∨ q = '\'') then munchFormat q rest else munchWord c cs
    | [] => munchWord c cs
  else munchMark c cs

/-! ## The scan -/

/-- How far a scan has come. -/
structure Cursor where
  /-- Where the next character stands. -/
  span : Span
  /-- The width of the line before it, a tab counting as four. -/
  width : Nat
  deriving DecidableEq

namespace Cursor

/-- The start of a text. -/
def start : Cursor := ⟨⟨1, 1⟩, 0⟩

/-- Move over one character. -/
def next (p : Cursor) (c : Char) : Cursor :=
  if c = '\n' then ⟨⟨p.span.line + 1, 1⟩, 0⟩
  else ⟨⟨p.span.line, p.span.col + 1⟩, p.width + if c = '\t' then 4 else 1⟩

/-- Move over a text. -/
def past (p : Cursor) (cs : List Char) : Cursor := cs.foldl next p

end Cursor

/-- A lexeme and where it was found. -/
structure Scanned where
  /-- The lexeme. -/
  lexeme : Lexeme
  /-- Where its first character stands. -/
  span : Span
  /-- The width of its line before it. -/
  width : Nat
  deriving DecidableEq

/-- The lexemes of a text that starts at `p`, and where the text ends. -/
def scan (p : Cursor) (cs : List Char) : List Scanned × Cursor :=
  match cs with
  | [] => ([], p)
  | c :: cs =>
    if isGap c then scan (p.next c) cs
    else
      let (lexeme, n) := munch c cs
      let (rest, last) := scan (p.past (c :: cs.take n)) (cs.drop n)
      (⟨lexeme, p.span, p.width⟩ :: rest, last)
termination_by cs.length
decreasing_by
  · simp
  · simp only [List.length_cons, List.length_drop]; omega

end Token

end ReactiveScript

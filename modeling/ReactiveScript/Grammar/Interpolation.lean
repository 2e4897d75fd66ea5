import ReactiveScript.Grammar.Expression
import ReactiveScript.Text.Blank
import ReactiveScript.Token.Layout

/-!
# Format strings

The body of a format string is literal text with expressions between braces; a doubled brace is a
literal one.  An interpolation ends at the brace that closes it, found by counting brackets of any
kind, and may say after its last colon how many places its number takes: `.2f`.

The expression is read on its own and then moved to where it stands in the file.  Format strings
nest: an interpolation may hold another one, which is shorter than the one around it.  `read` takes
a bound on that nesting, and `Expr.ofSource` starts it with the length of the text.

* `pieces` — the pieces of a body, given a reader for the expressions inside.
* `Expr.ofSource` — the expression that a whole text spells.
-/

set_option autoImplicit false

namespace ReactiveScript

namespace Grammar

/-- How many characters of an interpolation come before the brace that closes it, `depth` brackets
being open. -/
def holeLength : Nat → List Char → Option Nat
  | _, [] => none
  | depth, c :: cs =>
    if c = '{' ∨ c = '[' ∨ c = '(' then (holeLength (depth + 1) cs).map (· + 1)
    else if c = '}' ∨ c = ']' ∨ c = ')' then
      if depth ≤ 1 then some 0 else (holeLength (depth - 1) cs).map (· + 1)
    else (holeLength depth cs).map (· + 1)

/-- A number of places: digits, perhaps with a plus sign, that fit sixty-four bits. -/
def readPlaces (cs : List Char) : Option Nat :=
  let ds := match cs with
    | '+' :: ds => ds
    | ds => ds
  let n := Number.ofDigits ds
  if ds ≠ [] ∧ ds.all Char.isDigit ∧ n < Nat.pow 2 64 then some n else none

/-- The number of places that a format such as `.2f` asks for. -/
def readFormat : List Char → Option Nat
  | '.' :: cs => if cs.getLast? = some 'f' then readPlaces cs.dropLast else none
  | _ => none

/-- Split the text of an interpolation into its expression and its number of places. -/
def splitFormat (fragment : List Char) : List Char × Option Nat :=
  let tail := fragment.reverse.takeWhile (· ≠ ':')
  if tail.length = fragment.length then (fragment, none)
  else
    match readFormat tail.reverse with
    | some places => (fragment.take (fragment.length - tail.length - 1), some places)
    | none => (fragment, none)

/-- The number of bytes of a text. -/
def byteLength (cs : List Char) : Nat := cs.foldl (fun n c => n + c.utf8Size) 0

/-- The piece that the text of an interpolation stands for.  `span` is where the format string
starts and `start` the place of the text in its body. -/
def hole (read : List Char → Except SyntaxError Expr) (span : Span) (start : Nat)
    (fragment : List Char) : Except SyntaxError Piece :=
  let (source, places) := splitFormat fragment
  let trimmed := Text.trimStart source
  if Text.trimEnd trimmed = [] then .error ⟨.emptyInterpolation, span⟩
  else
    let lead := byteLength source - byteLength trimmed
    let origin : Span := ⟨span.line, span.col + 2 + start + lead⟩
    match read trimmed with
    | .ok e => .ok (.hole (e.shift origin) places)
    | .error err => .error ⟨.interpolation err.cause, origin.within err.span⟩

/-- The literal text read so far, in reverse, as a piece; no piece if there is none. -/
def literalPiece (literal : List Char) : List Piece :=
  if literal = [] then [] else [.text (String.ofList (Token.unescape literal.reverse))]

/-- The pieces of the rest of a body.  `start` is its place in the whole body and `literal` the
literal text in front of it, in reverse. -/
def piecesFrom (read : List Char → Except SyntaxError Expr) (span : Span) (start : Nat)
    (literal : List Char) (cs : List Char) : Except SyntaxError (List Piece) :=
  match cs with
  | [] => .ok (literalPiece literal)
  | '{' :: '{' :: cs => piecesFrom read span (start + 2) ('{' :: literal) cs
  | '}' :: '}' :: cs => piecesFrom read span (start + 2) ('}' :: literal) cs
  | '}' :: _ => .error ⟨.loneBrace, span⟩
  | '{' :: cs =>
    match holeLength 1 cs with
    | none => .error ⟨.openBrace, span⟩
    | some n => do
      let piece ← hole read span (start + 1) (cs.take n)
      let rest ← piecesFrom read span (start + n + 2) [] (cs.drop (n + 1))
      .ok (literalPiece literal ++ piece :: rest)
  | c :: cs => piecesFrom read span (start + 1) (c :: literal) cs
termination_by cs.length
decreasing_by all_goals simp_all only [List.length_cons, List.length_drop]; omega

/-- The pieces of the body of a format string that starts at `span`. -/
def pieces (read : List Char → Except SyntaxError Expr) : FormatParser := fun raw span =>
  piecesFrom read span 0 [] raw.toList

/-- Read a text as an expression whose format strings nest less than `n` levels deep. -/
def read : Nat → List Char → Except SyntaxError Expr
  | 0, _ => unexpected "expression" []
  | n + 1, cs => do
    let ts ← Token.ofSource cs
    wholeExpression (pieces (read n)) ts

end Grammar

/-- The expression that a text spells. -/
def Expr.ofSource (cs : List Char) : Except SyntaxError Expr := Grammar.read (cs.length + 1) cs

/-- The pieces of the body of a format string in a script. -/
def Grammar.formatPieces : FormatParser := pieces Expr.ofSource

end ReactiveScript

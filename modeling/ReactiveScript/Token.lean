import ReactiveScript.Number.Shortest
import ReactiveScript.Span
import ReactiveScript.Text.Quoted

/-!
# Tokens

The tokens of the script language, each paired with the span of its first character, and the ways
in which a script can fail to be read.

* `Token.text` — how a token is called in a message.
* `SyntaxError` — what is wrong and where; `SyntaxError.Cause.message` gives the wording.
-/

set_option autoImplicit false

namespace ReactiveScript

/-- The reserved words. -/
inductive Keyword where
  /-- Starts a function definition. -/
  | kwDef
  /-- Ends a call. -/
  | kwReturn
  /-- Starts a choice. -/
  | kwIf
  /-- A further branch. -/
  | kwElif
  /-- The last branch. -/
  | kwElse
  /-- Starts a loop. -/
  | kwFor
  /-- Between the variable of a loop and what it runs over. -/
  | kwIn
  /-- Conjunction. -/
  | kwAnd
  /-- Disjunction. -/
  | kwOr
  /-- Negation. -/
  | kwNot
  /-- The true value. -/
  | kwTrue
  /-- The false value. -/
  | kwFalse
  /-- The absent value. -/
  | kwNone
  /-- The empty statement. -/
  | kwPass
  deriving DecidableEq, Repr

namespace Keyword

/-- How a reserved word is spelt. -/
def text : Keyword → String
  | .kwDef => "def"
  | .kwReturn => "return"
  | .kwIf => "if"
  | .kwElif => "elif"
  | .kwElse => "else"
  | .kwFor => "for"
  | .kwIn => "in"
  | .kwAnd => "and"
  | .kwOr => "or"
  | .kwNot => "not"
  | .kwTrue => "True"
  | .kwFalse => "False"
  | .kwNone => "None"
  | .kwPass => "pass"

/-- All reserved words. -/
def all : List Keyword :=
  [.kwDef, .kwReturn, .kwIf, .kwElif, .kwElse, .kwFor, .kwIn, .kwAnd, .kwOr, .kwNot, .kwTrue,
    .kwFalse, .kwNone, .kwPass]

/-- The reserved word with a spelling. -/
def ofText? (s : String) : Option Keyword := all.find? (·.text == s)

end Keyword

/-- The operators and delimiters. -/
inductive Mark where
  /-- Sum. -/
  | plus
  /-- Difference and negative sign. -/
  | minus
  /-- Product. -/
  | star
  /-- Quotient. -/
  | slash
  /-- Remainder. -/
  | percent
  /-- Equal. -/
  | eqEq
  /-- Not equal. -/
  | notEq
  /-- Less. -/
  | less
  /-- Greater. -/
  | greater
  /-- Less or equal. -/
  | lessEq
  /-- Greater or equal. -/
  | greaterEq
  /-- Assignment. -/
  | assign
  /-- Opening parenthesis. -/
  | openParen
  /-- Closing parenthesis. -/
  | closeParen
  /-- Opening bracket. -/
  | openBracket
  /-- Closing bracket. -/
  | closeBracket
  /-- Opening brace. -/
  | openBrace
  /-- Closing brace. -/
  | closeBrace
  /-- Between items. -/
  | comma
  /-- Before a block and between a key and its value. -/
  | colon
  /-- Before an attribute. -/
  | dot
  deriving DecidableEq, Repr

namespace Mark

/-- How an operator or delimiter is spelt. -/
def text : Mark → String
  | .plus => "+"
  | .minus => "-"
  | .star => "*"
  | .slash => "/"
  | .percent => "%"
  | .eqEq => "=="
  | .notEq => "!="
  | .less => "<"
  | .greater => ">"
  | .lessEq => "<="
  | .greaterEq => ">="
  | .assign => "="
  | .openParen => "("
  | .closeParen => ")"
  | .openBracket => "["
  | .closeBracket => "]"
  | .openBrace => "\x7b"
  | .closeBrace => "\x7d"
  | .comma => ","
  | .colon => ":"
  | .dot => "."

/-- Whether a delimiter opens a bracketed group. -/
def isOpening : Mark → Bool
  | .openParen | .openBracket | .openBrace => true
  | _ => false

/-- Whether a delimiter closes a bracketed group. -/
def isClosing : Mark → Bool
  | .closeParen | .closeBracket | .closeBrace => true
  | _ => false

end Mark

/-- A token. -/
inductive Token where
  /-- A reserved word. -/
  | keyword (k : Keyword)
  /-- A name. -/
  | name (s : String)
  /-- A number. -/
  | number (x : Float)
  /-- A text literal, its escapes resolved. -/
  | text (s : String)
  /-- The raw body of a format string. -/
  | format (raw : String)
  /-- An operator or delimiter. -/
  | mark (m : Mark)
  /-- The end of a logical line. -/
  | newline
  /-- The start of an indented block. -/
  | indent
  /-- The end of an indented block. -/
  | dedent
  /-- The end of the script. -/
  | finish
  deriving DecidableEq

/-- A token and where it starts. -/
structure Located where
  /-- The token. -/
  token : Token
  /-- Where its first character stands. -/
  span : Span
  deriving DecidableEq

namespace Token

/-- How a token is called in a message. -/
def display : Token → String
  | .keyword k => k.text
  | .name s => "identifier '" ++ s ++ "'"
  | .number x => "number " ++ Number.text "NaN" x
  | .text _ => "string literal"
  | .format _ => "f-string"
  | .mark m => "'" ++ m.text ++ "'"
  | .newline => "newline"
  | .indent => "indent"
  | .dedent => "dedent"
  | .finish => "end of input"

end Token

/-! ## Errors -/

/-- What can be wrong with the text of a script. -/
inductive SyntaxError.Cause where
  /-- Characters that start no token. -/
  | strayText (slice : String)
  /-- A line is indented less than the block it is in and unlike any block around it. -/
  | unmatchedIndentation
  /-- Another token would have to stand here. -/
  | expected (what : String) (found : Token)
  /-- An indented line where no block starts. -/
  | strayIndent
  /-- A return statement outside a function. -/
  | strayReturn
  /-- A function definition inside a function. -/
  | nestedDefinition
  /-- Two parameters of one name. -/
  | duplicateParameter (name : String)
  /-- A block without statements. -/
  | emptyBlock
  /-- Something other than a name is called. -/
  | unnamedCallee
  /-- Two keyword arguments of one name. -/
  | repeatedKeyword (name : String)
  /-- A positional argument behind a keyword argument. -/
  | latePositional
  /-- A closing brace in a format string that closes nothing. -/
  | loneBrace
  /-- An opening brace in a format string that is never closed. -/
  | openBrace
  /-- An interpolation without an expression. -/
  | emptyInterpolation
  /-- The expression of an interpolation is wrong. -/
  | interpolation (cause : SyntaxError.Cause)
  deriving DecidableEq

/-- Why and where a script could not be read. -/
structure SyntaxError where
  /-- What is wrong. -/
  cause : SyntaxError.Cause
  /-- Where it is wrong. -/
  span : Span
  deriving DecidableEq

namespace SyntaxError

/-- The wording of a cause. -/
def Cause.message : Cause → String
  | .strayText slice => "unexpected character " ++ Text.quote slice
  | .unmatchedIndentation => "unindent does not match any outer indentation level"
  | .expected what found => "expected " ++ what ++ ", found " ++ found.display
  | .strayIndent => "unexpected indent"
  | .strayReturn => "'return' outside function"
  | .nestedDefinition => "nested function definitions are not supported"
  | .duplicateParameter name => "duplicate parameter '" ++ name ++ "' in function definition"
  | .emptyBlock => "expected an indented block"
  | .unnamedCallee => "only named functions can be called"
  | .repeatedKeyword name => "keyword argument repeated: " ++ name
  | .latePositional => "positional argument follows keyword argument"
  | .loneBrace => "f-string: single '\x7d' is not allowed"
  | .openBrace => "f-string: expecting '\x7d'"
  | .emptyInterpolation => "f-string: empty expression not allowed"
  | .interpolation cause => "f-string: " ++ cause.message

/-- The message with its position. -/
def text (e : SyntaxError) : String := e.cause.message ++ " at " ++ e.span.text

end SyntaxError

end ReactiveScript

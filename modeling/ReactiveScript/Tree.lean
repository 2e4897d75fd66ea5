import ReactiveScript.Span
import ReactiveScript.Value

/-!
# Syntax trees

A script is a list of statements over expressions.  Every node carries the span of its first token,
except that an operator application carries the span of its left operand and a call the span of the
name it calls, so that parentheses leave no trace.

* `Expr`, `Piece` — expressions, and the pieces of a format string.
* `Stmt`, `FunctionDef`, `Script` — statements, function definitions and whole scripts.
* `Expr.rename` — the same expression with its variables renamed.
* `Expr.shift` — the same expression moved to where its text stands in a larger one.
* `Expr.names`, `Expr.calls` — the variables an expression reads and the functions it calls.
-/

set_option autoImplicit false

namespace ReactiveScript

/-- The operators with one operand. -/
inductive UnaryOp where
  /-- Negative sign. -/
  | neg
  /-- Negation. -/
  | not
  deriving DecidableEq, Repr

/-- The operators that evaluate both operands. -/
inductive BinaryOp where
  /-- Sum, or one text or list after another. -/
  | add
  /-- Difference. -/
  | sub
  /-- Product, or a text repeated. -/
  | mul
  /-- Quotient. -/
  | div
  /-- Remainder. -/
  | mod
  /-- Equal. -/
  | eq
  /-- Not equal. -/
  | notEq
  /-- Less. -/
  | lt
  /-- Less or equal. -/
  | le
  /-- Greater. -/
  | gt
  /-- Greater or equal. -/
  | ge
  deriving DecidableEq, Repr

/-- The operators that may leave their right operand unevaluated. -/
inductive LogicalOp where
  /-- Conjunction. -/
  | and
  /-- Disjunction. -/
  | or
  deriving DecidableEq, Repr

mutual

/-- An expression. -/
inductive Expr where
  /-- A literal. -/
  | literal (span : Span) (value : Value)
  /-- A variable. -/
  | name (span : Span) (name : String)
  /-- A format string. -/
  | format (span : Span) (pieces : List Piece)
  /-- A list. -/
  | list (span : Span) (items : List Expr)
  /-- A dict. -/
  | dict (span : Span) (entries : List (Expr × Expr))
  /-- An operator with one operand. -/
  | unary (span : Span) (op : UnaryOp) (operand : Expr)
  /-- An operator with two operands. -/
  | binary (span : Span) (op : BinaryOp) (left right : Expr)
  /-- A logical operator. -/
  | logical (span : Span) (op : LogicalOp) (left right : Expr)
  /-- A call of a named function, with positional and then keyword arguments. -/
  | call (span : Span) (function : String) (args : List Expr) (keywords : List (String × Expr))
  /-- An item of a list, text or dict. -/
  | index (span : Span) (value index : Expr)
  /-- A field of a dict. -/
  | attribute (span : Span) (value : Expr) (field : String)

/-- A piece of a format string. -/
inductive Piece where
  /-- Literal text. -/
  | text (s : String)
  /-- An interpolated expression, possibly with a number of places. -/
  | hole (e : Expr) (places : Option Nat)

end

/-- A statement. -/
inductive Stmt where
  /-- A variable gets a value. -/
  | assign (span : Span) (target : String) (value : Expr)
  /-- An expression is evaluated. -/
  | expr (span : Span) (e : Expr)
  /-- A function is defined. -/
  | define (span : Span) (name : String) (params : List String) (defSpan : Span) (body : List Stmt)
  /-- A call ends, with a value or without. -/
  | result (span : Span) (value : Option Expr)
  /-- The first branch whose test holds, or the last block. -/
  | choose (span : Span) (branches : List (Expr × List Stmt)) (otherwise : List Stmt)
  /-- A block for every item of a collection. -/
  | loop (span : Span) (target : String) (series : Expr) (body : List Stmt)
  /-- Nothing. -/
  | pass (span : Span)

/-- A function definition. -/
structure FunctionDef where
  /-- The name it is called by. -/
  name : String
  /-- The names of its parameters. -/
  params : List String
  /-- Its body. -/
  body : List Stmt
  /-- Where it is defined. -/
  span : Span

/-- A parsed script. -/
structure Script where
  /-- Its top-level statements. -/
  body : List Stmt

namespace UnaryOp

/-- How an operator is spelt, with the blank behind it that a word needs. -/
def text : UnaryOp → String
  | .neg => "-"
  | .not => "not "

end UnaryOp

namespace BinaryOp

/-- How an operator is spelt. -/
def text : BinaryOp → String
  | .add => "+"
  | .sub => "-"
  | .mul => "*"
  | .div => "/"
  | .mod => "%"
  | .eq => "=="
  | .notEq => "!="
  | .lt => "<"
  | .le => "<="
  | .gt => ">"
  | .ge => ">="

end BinaryOp

namespace LogicalOp

/-- How an operator is spelt. -/
def text : LogicalOp → String
  | .and => "and"
  | .or => "or"

end LogicalOp

namespace Stmt

/-- Where a statement starts. -/
def span : Stmt → Span
  | .assign s .. => s
  | .expr s _ => s
  | .define s .. => s
  | .result s _ => s
  | .choose s .. => s
  | .loop s .. => s
  | .pass s => s

/-- The function that a statement defines. -/
def definition? : Stmt → Option FunctionDef
  | .define _ name params span body => some ⟨name, params, body, span⟩
  | _ => none

end Stmt

namespace Expr

/-- Where an expression starts. -/
def span : Expr → Span
  | .literal s _ => s
  | .name s _ => s
  | .format s _ => s
  | .list s _ => s
  | .dict s _ => s
  | .unary s .. => s
  | .binary s .. => s
  | .logical s .. => s
  | .call s .. => s
  | .index s .. => s
  | .attribute s .. => s

/-! ## Traversals that keep the shape

Renaming variables and moving spans both rebuild an expression with something done to its spans and
something to its variables; `mapWith` does both. -/

mutual

/-- The same expression with `move` applied to its spans and `rename` to the names of its variables.
The functions it calls keep their names. -/
def mapWith (move : Span → Span) (rename : String → String) : Expr → Expr
  | .literal s v => .literal (move s) v
  | .name s n => .name (move s) (rename n)
  | .format s ps => .format (move s) (mapPieces move rename ps)
  | .list s es => .list (move s) (mapAll move rename es)
  | .dict s es => .dict (move s) (mapEntries move rename es)
  | .unary s op e => .unary (move s) op (mapWith move rename e)
  | .binary s op l r => .binary (move s) op (mapWith move rename l) (mapWith move rename r)
  | .logical s op l r => .logical (move s) op (mapWith move rename l) (mapWith move rename r)
  | .call s f args kws => .call (move s) f (mapAll move rename args) (mapKeywords move rename kws)
  | .index s e i => .index (move s) (mapWith move rename e) (mapWith move rename i)
  | .attribute s e a => .attribute (move s) (mapWith move rename e) a

/-- `mapWith` on the pieces of a format string. -/
def mapPieces (move : Span → Span) (rename : String → String) : List Piece → List Piece
  | [] => []
  | .text s :: ps => .text s :: mapPieces move rename ps
  | .hole e p :: ps => .hole (mapWith move rename e) p :: mapPieces move rename ps

/-- `mapWith` on every expression of a list. -/
def mapAll (move : Span → Span) (rename : String → String) : List Expr → List Expr
  | [] => []
  | e :: es => mapWith move rename e :: mapAll move rename es

/-- `mapWith` on the keys and values of a dict. -/
def mapEntries (move : Span → Span) (rename : String → String) :
    List (Expr × Expr) → List (Expr × Expr)
  | [] => []
  | (k, v) :: es => (mapWith move rename k, mapWith move rename v) :: mapEntries move rename es

/-- `mapWith` on the keyword arguments of a call. -/
def mapKeywords (move : Span → Span) (rename : String → String) :
    List (String × Expr) → List (String × Expr)
  | [] => []
  | (k, v) :: es => (k, mapWith move rename v) :: mapKeywords move rename es

end

/-- The new name of a variable under a table of renamings. -/
def renamed (names : Table String String) (n : String) : String := (Table.get? n names).getD n

/-- The same expression with its variables renamed; a variable without an entry keeps its name. -/
def rename (names : Table String String) (e : Expr) : Expr := mapWith id (renamed names) e

/-- The same expression as part of a text in which its own text starts at `origin`. -/
def shift (origin : Span) (e : Expr) : Expr := mapWith origin.within id e

/-! ## Variables and calls -/

mutual

/-- Every variable read and every function called, in the order of the text: a variable on the
left, a function on the right. -/
def mentions : Expr → List (String ⊕ String)
  | .literal _ _ => []
  | .name _ n => [.inl n]
  | .format _ ps => pieceMentions ps
  | .list _ es => allMentions es
  | .dict _ es => entryMentions es
  | .unary _ _ e => mentions e
  | .binary _ _ l r => mentions l ++ mentions r
  | .logical _ _ l r => mentions l ++ mentions r
  | .call _ f args kws => .inr f :: (allMentions args ++ keywordMentions kws)
  | .index _ e i => mentions e ++ mentions i
  | .attribute _ e _ => mentions e

/-- What the pieces of a format string mention. -/
def pieceMentions : List Piece → List (String ⊕ String)
  | [] => []
  | .text _ :: ps => pieceMentions ps
  | .hole e _ :: ps => mentions e ++ pieceMentions ps

/-- What the expressions of a list mention. -/
def allMentions : List Expr → List (String ⊕ String)
  | [] => []
  | e :: es => mentions e ++ allMentions es

/-- What the keys and values of a dict mention. -/
def entryMentions : List (Expr × Expr) → List (String ⊕ String)
  | [] => []
  | (k, v) :: es => mentions k ++ mentions v ++ entryMentions es

/-- What the keyword arguments of a call mention. -/
def keywordMentions : List (String × Expr) → List (String ⊕ String)
  | [] => []
  | (_, v) :: es => mentions v ++ keywordMentions es

end

/-- The variables an expression reads. -/
def names (e : Expr) : List String := e.mentions.filterMap fun
  | .inl n => some n
  | .inr _ => none

/-- The functions an expression calls. -/
def calls (e : Expr) : List String := e.mentions.filterMap fun
  | .inl _ => none
  | .inr f => some f

end Expr

end ReactiveScript

import ReactiveScript.Text.Quoted
import ReactiveScript.Tree

/-!
# Printing syntax trees

A script is printed in a normal form: every operator application in parentheses, text literals
between double quotes, blocks indented by four blanks.

* `Expr.print`, `Stmt.print`, `Script.print` — the text of an expression, of a statement inside
  blocks of a certain depth, and of a script.
-/

set_option autoImplicit false

namespace ReactiveScript

namespace Expr

/-- A literal: a text in quotes, anything else as it is displayed. -/
def printLiteral : Value → String
  | .text s => Text.quote s
  | v => v.display

/-- One character of the literal text of a format string: braces are doubled, and quotes,
backslashes and line ends escaped. -/
def formatChar (c : Char) : List Char :=
  if c = '\\' then ['\\', '\\']
  else if c = '"' then ['\\', '"']
  else if c = '\n' then ['\\', 'n']
  else if c = '{' then ['{', '{']
  else if c = '}' then ['}', '}']
  else [c]

/-- The literal text of a format string. -/
def printFormatText (s : String) : String := String.ofList (s.toList.flatMap formatChar)

mutual

/-- The text of an expression. -/
def print : Expr → String
  | .literal _ v => printLiteral v
  | .name _ n => n
  | .format _ ps => "f\"" ++ printPieces ps ++ "\""
  | .list _ es => "[" ++ String.intercalate ", " (printAll es) ++ "]"
  | .dict _ es => "\x7b" ++ String.intercalate ", " (printEntries es) ++ "\x7d"
  | .unary _ op e => "(" ++ op.text ++ print e ++ ")"
  | .binary _ op l r => "(" ++ print l ++ " " ++ op.text ++ " " ++ print r ++ ")"
  | .logical _ op l r => "(" ++ print l ++ " " ++ op.text ++ " " ++ print r ++ ")"
  | .call _ f args kws =>
    f ++ "(" ++ String.intercalate ", " (printAll args ++ printKeywords kws) ++ ")"
  | .index _ e i => print e ++ "[" ++ print i ++ "]"
  | .attribute _ e a => print e ++ "." ++ a

/-- The text of the pieces of a format string. -/
def printPieces : List Piece → String
  | [] => ""
  | .text s :: ps => printFormatText s ++ printPieces ps
  | .hole e none :: ps => "\x7b" ++ print e ++ "\x7d" ++ printPieces ps
  | .hole e (some n) :: ps =>
    "\x7b" ++ print e ++ ":." ++ toString n ++ "f\x7d" ++ printPieces ps

/-- The texts of the expressions of a list. -/
def printAll : List Expr → List String
  | [] => []
  | e :: es => print e :: printAll es

/-- The texts of the entries of a dict. -/
def printEntries : List (Expr × Expr) → List String
  | [] => []
  | (k, v) :: es => (print k ++ ": " ++ print v) :: printEntries es

/-- The texts of the keyword arguments of a call. -/
def printKeywords : List (String × Expr) → List String
  | [] => []
  | (k, v) :: es => (k ++ "=" ++ print v) :: printKeywords es

end

end Expr

namespace Stmt

/-- The blanks in front of a statement inside `depth` blocks. -/
def pad (depth : Nat) : String := String.ofList (List.replicate (4 * depth) ' ')

/-- The word that a branch starts with. -/
def branchWord (first : Bool) : String := if first then "if " else "elif "

mutual

/-- The lines of a statement inside `depth` blocks. -/
def print (depth : Nat) : Stmt → String
  | .assign _ target e => pad depth ++ target ++ " = " ++ e.print ++ "\n"
  | .expr _ e => pad depth ++ e.print ++ "\n"
  | .define _ name params _ body =>
    pad depth ++ "def " ++ name ++ "(" ++ String.intercalate ", " params ++ "):\n" ++
      printBlock (depth + 1) body
  | .result _ (some e) => pad depth ++ "return " ++ e.print ++ "\n"
  | .result _ none => pad depth ++ "return\n"
  | .choose _ branches otherwise =>
    printBranches depth true branches ++
      if otherwise.isEmpty then "" else pad depth ++ "else:\n" ++ printBlock (depth + 1) otherwise
  | .loop _ target e body =>
    pad depth ++ "for " ++ target ++ " in " ++ e.print ++ ":\n" ++ printBlock (depth + 1) body
  | .pass _ => pad depth ++ "pass\n"

/-- The lines of a block. -/
def printBlock (depth : Nat) : List Stmt → String
  | [] => ""
  | s :: rest => print depth s ++ printBlock depth rest

/-- The lines of the branches of a choice. -/
def printBranches (depth : Nat) (first : Bool) : List (Expr × List Stmt) → String
  | [] => ""
  | (test, body) :: rest =>
    pad depth ++ branchWord first ++ test.print ++ ":\n" ++ printBlock (depth + 1) body ++
      printBranches depth false rest

end

end Stmt

namespace Script

/-- The text of a script in normal form. -/
def print (s : Script) : String := Stmt.printBlock 0 s.body

end Script

end ReactiveScript

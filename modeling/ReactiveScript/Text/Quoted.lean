import ReactiveScript.Text.Visible

/-!
# Quoted text

`Text.quote` writes a text between double quotes so that it can be told apart from any other text:
quotes, backslashes and the common controls get a backslash, and every other character that could
not be seen, or that would merge with the one before it, is written `\u` with its code point in
braces.
-/

set_option autoImplicit false

namespace ReactiveScript

namespace Text

/-- A code point as `\u` and lower-case hexadecimal digits in braces. -/
def codeEscape (c : Char) : List Char :=
  ['\\', 'u', '{'] ++ Nat.toDigits 16 c.toNat ++ ['}']

/-- One character between quotes. -/
def quoteChar (c : Char) : List Char :=
  if c = '\x00' then ['\\', '0']
  else if c = '\t' then ['\\', 't']
  else if c = '\r' then ['\\', 'r']
  else if c = '\n' then ['\\', 'n']
  else if c = '\\' then ['\\', '\\']
  else if c = '"' then ['\\', '"']
  else if isVisible c then [c]
  else codeEscape c

/-- A text between double quotes. -/
def quote (text : String) : String :=
  String.ofList ('"' :: text.toList.flatMap quoteChar ++ ['"'])

end Text

end ReactiveScript

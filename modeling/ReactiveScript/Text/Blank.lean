import ReactiveScript.Text.Ranges

/-!
# White space

The characters with the Unicode property White_Space, and the functions that trim them from the
ends of a text.
-/

set_option autoImplicit false

namespace ReactiveScript

namespace Text

/-- The code points with the property White_Space. -/
def blanks : CodeRanges := [
  (9, 13), (32, 32), (133, 133), (160, 160), (5760, 5760), (8192, 8202), (8232, 8233),
  (8239, 8239), (8287, 8287), (12288, 12288)]

/-- Whether a character is white space. -/
def isBlank (c : Char) : Bool := blanks.has c

/-- Drop the white space at the start. -/
def trimStart (cs : List Char) : List Char := cs.dropWhile isBlank

/-- Drop the white space at the end. -/
def trimEnd (cs : List Char) : List Char := (cs.reverse.dropWhile isBlank).reverse

/-- Drop the white space at both ends. -/
def trim (text : String) : String := String.ofList (trimEnd (trimStart text.toList))

end Text

end ReactiveScript

/-!
# Reading decimal text

`Number.read?` accepts a decimal number — an optional sign, digits with an optional point, an
optional exponent — or one of the words `inf`, `infinity` and `nan` in any case, and returns the
nearest floating-point number.  At least one digit has to stand before or after the point.

`Number.ofDecimal` is the rounding step: values too large become an infinity and values too small
a zero, decided from the position of the leading digit so that an enormous exponent costs nothing.
-/

set_option autoImplicit false

namespace ReactiveScript

namespace Number

/-- The value of a digit character. -/
def digitValue (c : Char) : Nat := c.toNat - '0'.toNat

/-- The natural number that a list of digit characters spells. -/
def ofDigits (ds : List Char) : Nat :=
  ds.foldl (fun n c => 10 * n + digitValue c) 0

/-- The number nearest to `digits · 10 ^ exponent`. -/
def ofDecimal (digits : Nat) (exponent : Int) : Float :=
  if digits = 0 then 0
  else
    let lead := (digits.log2 : Int) * 30103 / 100000 + exponent
    if 400 < lead then 1 / 0
    else if lead < -400 then 0
    else if exponent < 0 then Float.ofScientific digits true (-exponent).toNat
    else Float.ofScientific digits false exponent.toNat

/-- Read the exponent part: nothing, or `e` with a signed integer that ends the text. -/
def readExponent : List Char → Option Int
  | [] => some 0
  | c :: rest =>
    if c = 'e' ∨ c = 'E' then
      let (negative, ds) := match rest with
        | '-' :: ds => (true, ds)
        | '+' :: ds => (false, ds)
        | ds => (false, ds)
      if ds ≠ [] ∧ ds.all Char.isDigit then
        some (if negative then -(ofDigits ds : Int) else ofDigits ds)
      else none
    else none

/-- Read an unsigned decimal number that ends the text. -/
def readMagnitude (cs : List Char) : Option Float :=
  let whole := cs.takeWhile Char.isDigit
  let (fraction, rest) := match cs.dropWhile Char.isDigit with
    | '.' :: r => (r.takeWhile Char.isDigit, r.dropWhile Char.isDigit)
    | r => ([], r)
  if whole = [] ∧ fraction = [] then none
  else (readExponent rest).map fun e => ofDecimal (ofDigits (whole ++ fraction)) (e - fraction.length)

/-- Read a number or one of the words for infinities and NaN, without its sign. -/
def readUnsigned (cs : List Char) : Option Float :=
  let word := String.ofList (cs.map Char.toLower)
  if word = "inf" ∨ word = "infinity" then some (1 / 0)
  else if word = "nan" then some (0 / 0)
  else readMagnitude cs

/-- Read a number that fills the whole text. -/
def read? (text : String) : Option Float :=
  match text.toList with
  | '-' :: cs => (readUnsigned cs).map (- ·)
  | '+' :: cs => readUnsigned cs
  | cs => readUnsigned cs

end Number

end ReactiveScript

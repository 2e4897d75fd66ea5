import ReactiveScript.Number.Binary

/-!
# Shortest decimal text

A number is written with the fewest digits that read back as the same number; among those it takes
the ones nearest to its exact value.  `Number.shortest` does this once, on exact integers, for every
notation: it returns the digits and the power of ten they are multiplied by.  What differs between
notations is only where the point goes and, when two decimals with that many digits are equally
near, which of them is taken (`Tie`).

The numbers that read back as `mantissa · 2 ^ exponent` are those between the two midpoints to its
neighbours, the midpoints included exactly when the mantissa is even.  `roundsBack` is that test.
For one digit, two digits, and so on up to seventeen, the only points of that decimal grid that can
pass it are the two around the number, so `shortest` looks at these and takes the first grid on
which one passes.

* `Number.positional` — all digits written out, never an exponent.
* `Number.text` — `positional` with sign, infinities and NaN.
-/

set_option autoImplicit false

namespace ReactiveScript

/-- A decimal number `digits · 10 ^ exponent`. -/
structure Decimal where
  /-- The digits, read as one natural number. -/
  digits : Nat
  /-- The power of ten they are multiplied by. -/
  exponent : Int
  deriving DecidableEq, Repr

namespace Decimal

/-- Drop `n` trailing zeros, or as many as there are. -/
def strip : Nat → Decimal → Decimal
  | 0, d => d
  | n + 1, d =>
    if d.digits ≠ 0 ∧ d.digits % 10 = 0 then strip n ⟨d.digits / 10, d.exponent + 1⟩ else d

end Decimal

/-- Which of two equally near decimals a number is written by. -/
inductive Tie where
  /-- The one with the even last digit. -/
  | even
  /-- The one of larger magnitude. -/
  | up
  deriving DecidableEq, Repr

namespace Number

/-- The common scale of a comparison between `a · 2 ^ i` and `b · 10 ^ j`: both sides times
`2 ^ (-i) · 10 ^ (-j)` where these are positive powers. -/
def scaled (a : Nat) (i : Int) (b : Nat) (j : Int) : Nat × Nat :=
  (a * Nat.pow 2 i.toNat * Nat.pow 10 (-j).toNat, b * Nat.pow 10 j.toNat * Nat.pow 2 (-i).toNat)

/-- Whether `d` reads back as `mantissa · 2 ^ exponent`: it lies between the midpoints to the two
neighbouring numbers.  Below a power of two the lower neighbour is only half as far away. -/
def roundsBack (mantissa : Nat) (exponent : Int) (d : Decimal) : Bool :=
  let low :=
    if mantissa = Nat.pow 2 52 ∧ exponent ≠ -1074 then 4 * mantissa - 1 else 4 * mantissa - 2
  let (l, x) := scaled low (exponent - 2) d.digits d.exponent
  let (h, y) := scaled (4 * mantissa + 2) (exponent - 2) d.digits d.exponent
  if mantissa % 2 = 0 then decide (l ≤ x) && decide (y ≤ h) else decide (l < x) && decide (y < h)

/-- The point of the grid of multiples of `10 ^ unit` that a number is written by, if one reads
back: of the two around it the nearer one, and of two equally near ones the upper or the even
one. -/
def onGrid (tie : Tie) (mantissa : Nat) (exponent : Int) (unit : Int) : Option Decimal :=
  let (num, den) := scaled mantissa exponent 1 unit
  let below := num / den
  let twice := 2 * (num % den)
  let first :=
    if twice < den ∨ (twice = den ∧ tie = .even ∧ below % 2 = 0) then below else below + 1
  let second := 2 * below + 1 - first
  [first, second].findSome? fun d =>
    if roundsBack mantissa exponent ⟨d, unit⟩ then some ⟨d, unit⟩ else none

/-- The exponent of the leading decimal digit of `mantissa · 2 ^ exponent`. -/
def leadingExponent (mantissa : Nat) (exponent : Int) : Int :=
  let (num, den) := scaled (mantissa * Nat.pow 10 330) exponent 1 0
  ((toString (num / den)).length : Int) - 331

/-- The digits that `mantissa · 2 ^ exponent` is written with.  Should no grid serve, all digits of
the exact value would; seventeen always do. -/
def shortest (tie : Tie) (mantissa : Nat) (exponent : Int) : Decimal :=
  let lead := leadingExponent mantissa exponent
  let found := (List.range 17).findSome? fun (n : Nat) => onGrid tie mantissa exponent (lead - n)
  let exact : Decimal :=
    ⟨mantissa * Nat.pow 2 exponent.toNat * Nat.pow 5 (-exponent).toNat, min exponent 0⟩
  Decimal.strip 20 (found.getD exact)

/-- A string of `n` zeros. -/
def zeros (n : Nat) : String :=
  String.ofList (List.replicate n '0')

/-- The text `digits` with a decimal point before its last `places` characters, padded with zeros
on the left as far as needed. -/
def withPoint (digits : String) (places : Nat) : String :=
  let padded := zeros (places + 1 - digits.length) ++ digits
  let cut := padded.length - places
  if places = 0 then padded
  else String.ofList (padded.toList.take cut) ++ "." ++ String.ofList (padded.toList.drop cut)

/-- A decimal with all its digits written out. -/
def positional (d : Decimal) : String :=
  if 0 ≤ d.exponent then toString d.digits ++ zeros d.exponent.toNat
  else withPoint (toString d.digits) (-d.exponent).toNat

/-- The text of a magnitude, all digits written out. -/
def magnitudeText (mantissa : Nat) (exponent : Int) : String :=
  if mantissa = 0 then "0" else positional (shortest .up mantissa exponent)

/-- The text of a number, never with an exponent: `5`, `0.25`, `-0`, `inf`.  NaN is written
`nan`. -/
def text (nan : String) (x : Float) : String :=
  match shape x with
  | .nan => nan
  | .infinite negative => if negative then "-inf" else "inf"
  | .finite negative m e => (if negative then "-" else "") ++ magnitudeText m e

end Number

end ReactiveScript

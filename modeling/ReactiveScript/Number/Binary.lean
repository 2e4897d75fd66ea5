/-!
# The exact value of a number

Script numbers are 64-bit floating-point numbers.  `Number.shape` reads the sixty-four bits of one
and says which real number it stands for: `± mantissa · 2 ^ exponent`, an infinity, or no number
at all.  Everything that has to be exact — printing, rounding to an integer, converting to a fixed
width — is computed on that shape in `Nat` and `Int`, where there is nothing left to round.

* `wholePart`, `leftOver`, `Number.isWhole` — the integer part of the magnitude, what is left over,
  and whether nothing is.
* `Number.truncate`, `Number.floor`, `Number.ceil`, `Number.roundHalfAway` — the four roundings to
  an integer.  Each keeps the sign, so a negative number never rounds to a positive zero.
* `Number.toIntWithin` — the integer part clamped to an interval, which is how a number becomes an
  index, a count or a fixed-width integer.
-/

set_option autoImplicit false

namespace ReactiveScript

/-- What the bits of a floating-point number stand for. -/
inductive Shape where
  /-- Not a number. -/
  | nan
  /-- An infinity, negative or positive. -/
  | infinite (negative : Bool)
  /-- `± mantissa · 2 ^ exponent`. -/
  | finite (negative : Bool) (mantissa : Nat) (exponent : Int)
  deriving DecidableEq, Repr

namespace Shape

/-- The shape that a sign, an eleven-bit exponent field and a fifty-two-bit fraction field encode. -/
def ofFields (negative : Bool) (field fraction : Nat) : Shape :=
  if field = 2047 then
    if fraction = 0 then .infinite negative else .nan
  else if field = 0 then .finite negative fraction (-1074)
  else .finite negative (fraction + Nat.pow 2 52) (field - 1075)

/-- The shape that sixty-four bits encode. -/
def ofBits (bits : Nat) : Shape :=
  ofFields (bits / Nat.pow 2 63 % 2 == 1) (bits / Nat.pow 2 52 % Nat.pow 2 11) (bits % Nat.pow 2 52)

end Shape

/-- The integer part of `mantissa · 2 ^ exponent`. -/
def wholePart (mantissa : Nat) (exponent : Int) : Nat :=
  if 0 ≤ exponent then mantissa * Nat.pow 2 exponent.toNat
  else mantissa / Nat.pow 2 (-exponent).toNat

/-- What `mantissa · 2 ^ exponent` exceeds its integer part by, in units of `2 ^ exponent`. -/
def leftOver (mantissa : Nat) (exponent : Int) : Nat :=
  if 0 ≤ exponent then 0 else mantissa % Nat.pow 2 (-exponent).toNat

namespace Number

/-- The exact value of a number. -/
def shape (x : Float) : Shape :=
  Shape.ofBits x.toBits.toNat

/-- The integer `n` with the given sign; a negative zero is a zero. -/
def ofSigned (negative : Bool) (n : Nat) : Float :=
  if negative then -(Float.ofNat n) else Float.ofNat n

/-- Whether a number is finite and has no fractional part. -/
def isWhole (x : Float) : Bool :=
  match shape x with
  | .finite _ m e => leftOver m e == 0
  | _ => false

/-- Round a finite number to an integer: `up negative m e` says whether the magnitude
`m · 2 ^ e`, which has a fractional part, goes up.  Whole numbers, infinities and NaN stay. -/
def roundBy (up : Bool → Nat → Int → Bool) (x : Float) : Float :=
  match shape x with
  | .finite negative m e =>
    if leftOver m e = 0 then x
    else ofSigned negative (wholePart m e + if up negative m e then 1 else 0)
  | _ => x

/-- Drop the fractional part. -/
def truncate (x : Float) : Float :=
  roundBy (fun _ _ _ => false) x

/-- The largest integer that is not larger. -/
def floor (x : Float) : Float :=
  roundBy (fun negative _ _ => negative) x

/-- The smallest integer that is not smaller. -/
def ceil (x : Float) : Float :=
  roundBy (fun negative _ _ => !negative) x

/-- The nearest integer; a half goes away from zero. -/
def roundHalfAway (x : Float) : Float :=
  roundBy (fun _ m e => decide (Nat.pow 2 (-e).toNat ≤ 2 * leftOver m e)) x

/-- The integer part, when the number is finite. -/
def toInt? (x : Float) : Option Int :=
  match shape x with
  | .finite negative m e => some (if negative then -(wholePart m e : Int) else wholePart m e)
  | _ => none

/-- The integer part clamped to `lo … hi`; an infinity goes to its end, NaN to zero. -/
def toIntWithin (lo hi : Int) (x : Float) : Int :=
  match shape x with
  | .nan => 0
  | .infinite negative => if negative then lo else hi
  | .finite negative m e =>
    let n : Int := if negative then -(wholePart m e : Int) else wholePart m e
    max lo (min hi n)

/-- The nearest sixty-four-bit signed integer toward zero. -/
def toInt64 (x : Float) : Int :=
  toIntWithin (-Int.pow 2 63) (Int.pow 2 63 - 1) x

/-- The nearest thirty-two-bit signed integer toward zero. -/
def toInt32 (x : Float) : Int :=
  toIntWithin (-Int.pow 2 31) (Int.pow 2 31 - 1) x

/-- The nearest count toward zero: negative numbers give none. -/
def toCount (x : Float) : Nat :=
  (toIntWithin 0 (Int.pow 2 64 - 1) x).toNat

/-- Whether the sign bit is set. -/
def isNegative (x : Float) : Bool :=
  match shape x with
  | .nan => false
  | .infinite negative => negative
  | .finite negative _ _ => negative

end Number

end ReactiveScript

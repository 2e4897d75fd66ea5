import ReactiveScript.Number.Shortest

/-!
# A fixed number of places

`Number.fixed places x` writes a number with exactly `places` digits after the point.  It rounds
the exact binary value, so `0.125` with two places is a tie and `0.1` with twenty places shows
the digits behind the shortest text; a tie goes to the even last digit.

A number of places above `Number.maxPlaces` cannot be asked for at all: the caller has to treat
it as a failure of the formatting machinery and not as an error of the script.
-/

set_option autoImplicit false

namespace ReactiveScript

namespace Number

/-- The largest number of places a format may ask for. -/
def maxPlaces : Nat := 65535

/-- `num / den` rounded to the nearest natural number, a tie to the even one. -/
def divideToEven (num den : Nat) : Nat :=
  let q := num / den
  let twice := 2 * (num % den)
  if twice < den ∨ (twice = den ∧ q % 2 = 0) then q else q + 1

/-- `mantissa · 2 ^ exponent` with `places` digits after the point.  No number has more than 1074
digits after the point, so the places beyond that are zeros. -/
def fixedMagnitude (places mantissa : Nat) (exponent : Int) : String :=
  let exact := min places 1100
  let digits := divideToEven (mantissa * Nat.pow 10 exact * Nat.pow 2 exponent.toNat)
    (Nat.pow 2 (-exponent).toNat)
  withPoint (toString digits) exact ++ zeros (places - exact)

/-- A number with `places` digits after the point. -/
def fixed (places : Nat) (x : Float) : String :=
  match shape x with
  | .nan => "NaN"
  | .infinite negative => if negative then "-inf" else "inf"
  | .finite negative m e => (if negative then "-" else "") ++ fixedMagnitude places m e

end Number

end ReactiveScript

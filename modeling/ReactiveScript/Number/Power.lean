/-!
# Integer powers

`Number.power a n` multiplies by repeated squaring: the exponent is halved until nothing is left,
the base squared at each step and multiplied in when the exponent is odd.  A negative exponent
takes the reciprocal of the power at the end.  The order of the multiplications matters, since
each of them rounds.
-/

set_option autoImplicit false

namespace ReactiveScript

namespace Number

/-- `acc · a ^ n` by repeated squaring. -/
def squaring (acc a : Float) (n : Nat) : Float :=
  let acc := if n % 2 = 1 then acc * a else acc
  if h : n / 2 = 0 then acc else squaring acc (a * a) (n / 2)
termination_by n
decreasing_by omega

/-- The integer power `a ^ n`. -/
def power (a : Float) (n : Int) : Float :=
  let r := squaring 1 a n.natAbs
  if n < 0 then 1 / r else r

end Number

end ReactiveScript

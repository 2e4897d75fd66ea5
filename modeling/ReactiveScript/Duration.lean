import ReactiveScript.Number.Fixed

/-!
# Durations and points of time

A `Duration` is a whole number of nanoseconds; its whole seconds have to fit sixty-four bits, and so
it is a number below `Duration.bound`.

* `Duration.text` — the largest unit that leaves a whole part, with the fraction written out:
  `5ms`, `1.5s`, `0ns`.
* `Duration.scale?` — a duration times a factor, computed in floating-point seconds and rounded to
  the nearest nanosecond.  There is no answer when the product does not fit a duration.
* `Period` — a duration that is short enough to be set: its whole milliseconds fit sixty-four bits.
* `Instant` — a point of time, and `Instant.after` the one that is a period later.
-/

set_option autoImplicit false

namespace ReactiveScript

/-- The nanoseconds in two to the power of sixty-four seconds, which no duration lasts. -/
abbrev Duration.bound : Nat := 18446744073709551616000000000

/-- A span of time in nanoseconds. -/
structure Duration where
  /-- The number of nanoseconds. -/
  nanos : Fin Duration.bound
  deriving DecidableEq, Repr, Inhabited

namespace Duration

theorem millis_lt_bound (n : Nat) : n % Nat.pow 2 64 * 1000000 < bound :=
  Nat.lt_trans (Nat.mul_lt_mul_of_pos_right (Nat.mod_lt n (by decide)) (by decide)) (by decide)

/-- `n` milliseconds, where `n` is a sixty-four-bit number. -/
def ofMillis (n : Nat) : Duration := ⟨⟨n % Nat.pow 2 64 * 1000000, millis_lt_bound n⟩⟩

/-- The whole milliseconds, as a sixty-four-bit number. -/
def millis (d : Duration) : Nat := d.nanos / 1000000 % Nat.pow 2 64

/-- `n` nanoseconds, or the longest duration if these are more. -/
def ofNanos (n : Nat) : Duration :=
  ⟨⟨min n (bound - 1), Nat.lt_of_le_of_lt (Nat.min_le_right _ _) (by decide)⟩⟩

/-- `nanos` in units of `unit` nanoseconds, the fraction without trailing zeros. -/
def inUnits (nanos unit : Nat) (name : String) : String :=
  let places := (toString unit).length - 1
  let fraction := (Number.zeros (places - (toString (nanos % unit)).length) ++
    toString (nanos % unit)).toList
  let digits := (fraction.reverse.dropWhile (· == '0')).reverse
  toString (nanos / unit) ++ (if digits.isEmpty then "" else "." ++ String.ofList digits) ++ name

/-- The text of a duration in its largest fitting unit. -/
def text (d : Duration) : String :=
  if 1000000000 ≤ d.nanos then inUnits d.nanos 1000000000 "s"
  else if 1000000 ≤ d.nanos then inUnits d.nanos 1000000 "ms"
  else if 1000 ≤ d.nanos then inUnits d.nanos 1000 "µs"
  else inUnits d.nanos 1 "ns"

/-- The duration in seconds. -/
def seconds (d : Duration) : Float :=
  Float.ofNat (d.nanos / 1000000000) + Float.ofNat (d.nanos % 1000000000) / 1000000000

/-- The duration of `s` seconds, to the nearest nanosecond; none for a negative, too large or
undefined number of seconds. -/
def ofSeconds? (s : Float) : Option Duration :=
  match Number.shape s with
  | .finite negative m e =>
    if negative && m != 0 then none
    else
      let nanos := Number.divideToEven (m * 1000000000 * Nat.pow 2 e.toNat) (Nat.pow 2 (-e).toNat)
      if h : nanos < bound then some ⟨⟨nanos, h⟩⟩ else none
  | _ => none

/-- A duration times a factor. -/
def scale? (d : Duration) (factor : Float) : Option Duration :=
  ofSeconds? (factor * d.seconds)

end Duration

/-! ## Periods and points of time -/

/-- A duration that a session can be set to: it is given in milliseconds, of which there are no more
than fit sixty-four bits. -/
structure Period extends Duration where
  /-- It is short enough. -/
  short : nanos < 18446744073709551616000000
  deriving DecidableEq, Repr

namespace Period

/-- `n` milliseconds, where `n` is a sixty-four-bit number. -/
def ofMillis (n : Nat) : Period :=
  ⟨.ofMillis n, Nat.mul_lt_mul_of_pos_right (Nat.mod_lt n (by decide)) (by decide)⟩

instance : Inhabited Period := ⟨.ofMillis 0⟩

end Period

/-- A point of time, in nanoseconds since a start.  A clock counts sixty-three bits of seconds and a
period takes less than fifty-five, so there is room for one behind whatever a running clock shows. -/
structure Instant where
  /-- The number of nanoseconds. -/
  nanos : Nat
  deriving DecidableEq, Repr, Inhabited

namespace Instant

/-- The point of time that is a period later. -/
def after (t : Instant) (p : Period) : Instant := ⟨t.nanos + p.nanos⟩

/-- What a clock shows that was started at the beginning. -/
instance : Coe Duration Instant := ⟨fun d => ⟨d.nanos⟩⟩

end Instant

end ReactiveScript

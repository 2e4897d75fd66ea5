import ReactiveScript.Duration

/-!
# Clocks

Time is counted, not measured, so that a run is a function of its input: looking at the clock takes
a fixed pace, sleeping takes what it says, and nothing else takes any time.  A clock may carry a
limit, and a look at it says whether the limit has been reached.

The pace is made up: how long something takes is not determined by what it does.  No theorem depends
on it, nor on the limit being reached when just as much time has passed.
-/

set_option autoImplicit false

namespace ReactiveScript

/-- A clock with an optional limit. -/
structure Clock where
  /-- The nanoseconds that have passed. -/
  elapsed : Nat
  /-- The limit. -/
  limit : Option Duration
  deriving DecidableEq, Repr

namespace Clock

/-- What a look at the clock takes, in nanoseconds. -/
def pace : Nat := 1000

/-- A clock that starts now. -/
def start (limit : Option Duration) : Clock := ⟨0, limit⟩

/-- The limit, if there is one and it has been reached. -/
def reached (c : Clock) : Option Duration := c.limit.filter fun l => decide (l.nanos ≤ c.elapsed)

/-- Let time pass. -/
def sleep (d : Duration) (c : Clock) : Clock := { c with elapsed := c.elapsed + d.nanos }

/-- Look at the clock. -/
def look (c : Clock) : Option Duration × Clock :=
  let c := { c with elapsed := c.elapsed + pace }
  (c.reached, c)

end Clock

end ReactiveScript

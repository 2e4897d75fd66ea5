/-!
# Sets of characters

A set of characters is a list of ranges of code points, each with its first and its last member.
-/

set_option autoImplicit false

namespace ReactiveScript

namespace Text

/-- Ranges of code points, first and last included. -/
abbrev CodeRanges : Type := List (Nat × Nat)

/-- Whether a character lies in one of the ranges. -/
def CodeRanges.has (ranges : CodeRanges) (c : Char) : Bool :=
  ranges.any fun (first, last) => first ≤ c.toNat && c.toNat ≤ last

end Text

end ReactiveScript

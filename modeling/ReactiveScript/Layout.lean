import ReactiveScript.OutputUnit

/-!
# Packing units into rows

Units are packed into rows of total width one, in order and greedily: a unit joins the open row if
it fits, and closes it first if it does not.  A row that has become full is closed at once, and so
is the open row when a unit arrives that only marks the end of a row.  Each placed unit has a flex,
its share of the total width of its row.

What a width is, and when widths fill a row, is a `Measure`; rows come out of the same steps whether
widths are floating-point numbers or exact ones.

* `Packer.add`, `Packer.finish` — one unit more, and the end of a row.
* `packRows` — the rows of a list of units.
-/

set_option autoImplicit false

namespace ReactiveScript

/-- How units are measured: `α` is what is placed and `ω` a width. -/
structure Measure (α ω : Type) where
  /-- Whether a unit only marks the end of a row. -/
  isBreak : α → Bool
  /-- The width that a unit asks for. -/
  width : α → ω
  /-- No width. -/
  zero : ω
  /-- Two widths together. -/
  add : ω → ω → ω
  /-- Whether a total is too much for a row. -/
  exceeds : ω → Bool
  /-- Whether a total leaves no room in a row. -/
  fills : ω → Bool
  /-- The share of a width in a total. -/
  share : ω → ω → ω

/-- A unit with its share of the row. -/
structure Placed (α ω : Type) where
  /-- The unit. -/
  unit : α
  /-- Its share of the row. -/
  flex : ω

/-- Closed rows, and the open one. -/
structure Packer (α ω : Type) where
  /-- The rows that are closed. -/
  rows : List (List (Placed α ω))
  /-- The units of the open row. -/
  current : List α
  /-- Their total width. -/
  total : ω

namespace Packer

variable {α ω : Type} (r : Measure α ω)

/-- No rows. -/
def empty : Packer α ω := ⟨[], [], r.zero⟩

/-- A row with the shares of its units. -/
def close (total : ω) (units : List α) : List (Placed α ω) :=
  units.map fun u => ⟨u, r.share (r.width u) total⟩

/-- Close the open row, if it has any units. -/
def finish (p : Packer α ω) : Packer α ω :=
  if p.current.isEmpty then p
  else ⟨p.rows ++ [close r p.total p.current], [], r.zero⟩

/-- Close the open row if a unit of some width does not fit into it. -/
def makeRoom (width : ω) (p : Packer α ω) : Packer α ω :=
  if !p.current.isEmpty && r.exceeds (r.add p.total width) then p.finish r else p

/-- Place a unit at the end of the open row, and close the row if it is full. -/
def place (u : α) (p : Packer α ω) : Packer α ω :=
  let p : Packer α ω := ⟨p.rows, p.current ++ [u], r.add p.total (r.width u)⟩
  if r.fills p.total then p.finish r else p

/-- Add a unit. -/
def add (p : Packer α ω) (u : α) : Packer α ω :=
  if r.isBreak u then p.finish r else place r u (makeRoom r (r.width u) p)

/-- Close the open row and take all rows out. -/
def takeRows (p : Packer α ω) : List (List (Placed α ω)) × Packer α ω :=
  let p := p.finish r
  (p.rows, { p with rows := [] })

end Packer

/-- The rows of a list of units. -/
def packRows {α ω : Type} (r : Measure α ω) (units : List α) : List (List (Placed α ω)) :=
  ((units.foldl (Packer.add r) (Packer.empty r)).takeRows r).1

/-! ## Rows of output units -/

/-- An output unit with its share of the row. -/
abbrev PlacedUnit : Type := Placed OutputUnit Float

/-- A row of output units. -/
abbrev Row : Type := List PlacedUnit

namespace OutputUnit

/-- Widths that differ by less than this are taken as equal. -/
def tolerance : Float := 1e-9

/-- How output units are measured. -/
def measure : Measure OutputUnit Float where
  isBreak := isRowBreak
  width u := u.width
  zero := 0
  add := (· + ·)
  exceeds total := 1 + tolerance < total
  fills total := 1 - tolerance ≤ total
  share width total := if 0 < total then width / total else 0

/-- The rows of a list of output units. -/
def pack (units : List OutputUnit) : List Row := packRows measure units

end OutputUnit

end ReactiveScript

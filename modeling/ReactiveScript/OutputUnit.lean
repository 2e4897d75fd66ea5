import ReactiveScript.Identity
import ReactiveScript.Value

/-!
# Output units

One piece of output: what a component call emits, what a row of the layout holds, and what an
observer is sent.
-/

set_option autoImplicit false

namespace ReactiveScript

/-- One emitted piece of output. -/
structure OutputUnit where
  /-- Its stable id. -/
  id : UnitId
  /-- What it is, such as `text` or `slider`. -/
  kind : String
  /-- What it shows. -/
  value : Value
  /-- The share of a row it asks for. -/
  width : Float
  deriving Inhabited

/-- The values that the session holds for its input units. -/
abbrev InputTable : Type := Table UnitId Value

namespace OutputUnit

/-- The kind of unit that ends a row of the layout and is not shown itself. -/
def rowBreakKind : String := "separator"

/-- Whether a unit ends the row. -/
def isRowBreak (u : OutputUnit) : Bool := u.kind == rowBreakKind

/-- The form in which two versions of a unit are compared: kind and width are part of it. -/
def snapshot (u : OutputUnit) : Json :=
  .object [("kind", .text u.kind), ("value", u.value.toJson),
    ("width", if u.width.isFinite then .float u.width else .null)]

end OutputUnit

end ReactiveScript

import ReactiveScript.OutputUnit

/-!
# What is on view

A `View` holds the units on display in segments, one for each node that emitted any.  A node that
runs again replaces its whole segment, so that units it no longer emits disappear.
-/

set_option autoImplicit false

namespace ReactiveScript

/-- The units on display. -/
structure View where
  /-- The units, by the node that emitted them. -/
  segments : Table NodeId (List OutputUnit)
  deriving Inhabited

namespace View

/-- Nothing on display. -/
def empty : View := ⟨[]⟩

/-- The units of a node, if it has any on display. -/
def segment? (node : NodeId) (v : View) : Option (List OutputUnit) := Table.get? node v.segments

/-- Drop the units of a node. -/
def remove (node : NodeId) (v : View) : View := ⟨Table.erase node v.segments⟩

/-- Replace the units of a node; no units, no segment. -/
def replace (node : NodeId) (units : List OutputUnit) (v : View) : View :=
  if units.isEmpty then v.remove node else ⟨Table.put node units v.segments⟩

/-- All units: the segments of the nodes in `order` first, and the others behind them as they
came. -/
def units (order : List NodeId) (v : View) : List OutputUnit :=
  order.flatMap (fun node => (v.segment? node).getD []) ++
    (v.segments.filter fun e => !order.contains e.1).flatMap Prod.snd

/-- Whether a unit is on display. -/
def contains (unit : UnitId) (v : View) : Bool :=
  v.segments.any fun e => e.2.any fun u => u.id == unit

/-- The node under which the units of a script without a graph are kept. -/
def wholeScript : NodeId := ⟨"__script__"⟩

end View

end ReactiveScript

import ReactiveScript.Graph.Report
import ReactiveScript.Interpretation
import ReactiveScript.Layout
import ReactiveScript.MessagePack

/-!
# Messages to observers

What a session tells those who observe it: the rows on display, inputs that others changed, why the
script failed, the state of the graph, and the lines that the script prints.

* `Message.text`, `Message.bytes` — the two wire forms, compact JSON and MessagePack.  Both write the
  same document, whose first member says what kind of message it is.
-/

set_option autoImplicit false

namespace ReactiveScript

/-- What observers are told of a script that failed. -/
structure Notice where
  /-- The wording of the reason. -/
  message : String
  /-- The class of the reason. -/
  category : String
  /-- The trace of an error that the script raised. -/
  stackTrace : Option String

/-- What observers are told of the reason why a script failed. -/
def ScriptError.notice (e : ScriptError) : Notice := ⟨e.text, e.category, e.stackTrace?⟩

/-- A message to the observers of a session. -/
inductive Message where
  /-- The rows on display, and the units that are new or differ from those sent before. -/
  | components (rows : List Row) (changed : List UnitId)
  /-- Somebody changed an input. -/
  | stateUpdate (unit : UnitId) (value : Value)
  /-- The script failed. -/
  | failure (notice : Notice)
  /-- The state of the graph. -/
  | graph (report : GraphReport)
  /-- A printed line, with the node that printed it if the script was split into nodes. -/
  | output (line : String) (node : Option NodeId)

namespace Message

/-- A notice in JSON. -/
def noticeToJson (n : Notice) : Json :=
  .object [("message", .text n.message), ("kind", .text n.category),
    ("stack_trace", Json.orNull .text n.stackTrace)]

/-- A placed unit in JSON. -/
def placedToJson (p : PlacedUnit) : Json :=
  .object [("id", .text p.unit.id.text), ("kind", .text p.unit.kind),
    ("value", p.unit.value.toJson), ("width", .float p.unit.width), ("flex", .float p.flex)]

/-- The rows of a layout in JSON. -/
def rowsToJson (rows : List Row) : Json := .array (rows.map fun row => .array (row.map placedToJson))

/-- A message in JSON. -/
def toJson : Message → Json
  | .components rows changed =>
    .object [("type", .text "components"), ("rows", rowsToJson rows),
      ("changed", .array (changed.map fun id => .text id.text))]
  | .stateUpdate unit value =>
    .object [("type", .text "state_update"), ("unit_id", .text unit.text), ("value", value.toJson)]
  | .failure notice => .object [("type", .text "error"), ("content", noticeToJson notice)]
  | .graph report => .object [("type", .text "graph"), ("graph", report.toJson)]
  | .output line node =>
    .object ([("type", .text "output"), ("content", .text line)] ++
      node.toList.map fun id => ("node", .text id.text))

/-- A message as JSON text. -/
def text (m : Message) : String := m.toJson.toText

/-- A message in MessagePack. -/
def bytes (m : Message) : List UInt8 := MessagePack.encode m.toJson

end Message

end ReactiveScript

import ReactiveScript.Evaluation.Arguments
import ReactiveScript.OutputUnit

/-!
# Components

A component is a built-in function that emits an output unit.  `Component.render` turns a call into
the unit and the value of the call, or fails and emits nothing.  The components that take input
show the value that the session holds for their unit, and their default as long as it holds none.
-/

set_option autoImplicit false

namespace ReactiveScript

/-- The components. -/
inductive Component where
  /-- A paragraph. -/
  | text
  /-- A highlighted message. -/
  | alert
  /-- Something to press. -/
  | button
  /-- Something to tick. -/
  | checkbox
  /-- A number between two others. -/
  | slider
  /-- One of several options. -/
  | selectbox
  /-- A line of text to fill in. -/
  | textInput
  /-- A table. -/
  | table
  /-- A bar that fills up. -/
  | progress
  /-- The end of a row. -/
  | separator
  deriving DecidableEq, Repr

namespace Component

/-- All components. -/
def all : List Component :=
  [.text, .alert, .button, .checkbox, .slider, .selectbox, .textInput, .table, .progress,
    .separator]

/-- The name by which a component is called, which is also the kind of its units. -/
def name : Component → String
  | .text => "text"
  | .alert => "alert"
  | .button => "button"
  | .checkbox => "checkbox"
  | .slider => "slider"
  | .selectbox => "selectbox"
  | .textInput => "text_input"
  | .table => "table"
  | .progress => "progress"
  | .separator => "separator"

/-- The component with a name. -/
def ofName? (n : String) : Option Component := all.find? (·.name == n)

/-- The parameters of a component, in positional order. -/
def params : Component → List String
  | .text => ["markdown", "size"]
  | .alert => ["message", "level", "size"]
  | .button => ["label", "size"]
  | .checkbox => ["label", "default", "size"]
  | .slider => ["label", "min", "max", "default", "step", "size"]
  | .selectbox => ["label", "options", "default", "size"]
  | .textInput => ["label", "default", "placeholder", "size"]
  | .table => ["data", "title", "size"]
  | .progress => ["label", "value", "size"]
  | .separator => []

/-- Whether the value of a component comes from the user. -/
def isInput : Component → Bool
  | .button | .checkbox | .slider | .selectbox | .textInput => true
  | _ => false

/-- What a component call shows and returns. -/
structure Rendering where
  /-- What the unit shows. -/
  payload : Value
  /-- What the call returns. -/
  result : Value
  /-- The share of a row that the unit asks for. -/
  width : Float

/-- The levels of a message. -/
def levels : List String := ["info", "success", "warning", "error"]

/-- The display text of an argument, or another text if it is left out. -/
def textOr (b : Bound) (param dflt : String) : String :=
  match b.optional param with
  | some v => v.display
  | none => dflt

/-- A paragraph. -/
def renderText (b : Bound) : Checked Rendering := do
  let markdown ← b.required "markdown"
  let shown : Value := .text markdown.display
  let width ← b.width
  .ok ⟨.dict [("markdown", shown)], shown, width⟩

/-- A highlighted message. -/
def renderAlert (b : Bound) : Checked Rendering := do
  let message ← b.required "message"
  let shown : Value := .text message.display
  let level := textOr b "level" "info"
  if level ∉ levels then
    .error (.validation ("alert() level '" ++ level ++ "' is not supported") levels)
  else
    let width ← b.width
    .ok ⟨.dict [("message", shown), ("level", .text level)], shown, width⟩

/-- Something to press; `state` is what the session holds. -/
def renderButton (b : Bound) (state : Option Value) : Checked Rendering := do
  let label ← b.required "label"
  let width ← b.width
  let value := state.getD (.bool false)
  .ok ⟨.dict [("label", label), ("value", value)], value, width⟩

/-- Something to tick. -/
def renderCheckbox (b : Bound) (state : Option Value) : Checked Rendering := do
  let label ← b.required "label"
  let dflt := ((b.optional "default").map Value.isTruthy).getD false
  let width ← b.width
  let value := state.getD (.bool dflt)
  .ok ⟨.dict [("label", label), ("value", value)], value, width⟩

/-- A number between two others; the default has to lie between them. -/
def renderSlider (b : Bound) (state : Option Value) : Checked Rendering := do
  let label ← b.required "label"
  let min ← b.number "min" 0
  let max ← b.number "max" 100
  let step ← b.number "step" 1
  let dflt ← b.number "default" min
  let width ← b.width
  if max < min then
    .error (.validation ("slider() min (" ++ Value.numberText min ++ ") must not exceed max (" ++
      Value.numberText max ++ ")") [])
  else if dflt < min ∨ max < dflt then
    .error (.validation ("slider() default " ++ Value.numberText dflt ++ " is outside [" ++
      Value.numberText min ++ ", " ++ Value.numberText max ++ "]") [])
  else
    let value := state.getD (.number dflt)
    .ok ⟨.dict [("label", label), ("min", .number min), ("max", .number max),
      ("step", .number step), ("value", value)], value, width⟩

/-- One of several options; an explicit default has to be among them. -/
def renderSelectbox (b : Bound) (state : Option Value) : Checked Rendering := do
  let label ← b.required "label"
  let options ← b.required "options"
  match options.toList? with
  | none => typeError ("selectbox() options must be a list, not " ++ options.typeName)
  | some choices =>
    let dflt := b.optional "default"
    match dflt.filter fun d => !choices.any (·.same d) with
    | some d =>
      .error (.validation ("selectbox() default " ++ d.repr ++ " is not among its options")
        (choices.map Value.display))
    | none =>
      let width ← b.width
      let value := state.getD ((dflt.or choices.head?).getD .null)
      .ok ⟨.dict [("label", label), ("options", options), ("value", value)], value, width⟩

/-- A line of text to fill in. -/
def renderTextInput (b : Bound) (state : Option Value) : Checked Rendering := do
  let label ← b.required "label"
  let dflt := textOr b "default" ""
  let placeholder := textOr b "placeholder" ""
  let width ← b.width
  let value := state.getD (.text dflt)
  .ok ⟨.dict [("label", label), ("placeholder", .text placeholder), ("value", value)], value, width⟩

/-- A table. -/
def renderTable (b : Bound) : Checked Rendering := do
  let data ← b.required "data"
  let title := (b.optional "title").getD .null
  let width ← b.width
  .ok ⟨.dict [("title", title), ("data", data)], data, width⟩

/-- A bar that fills up; its value lies between zero and one. -/
def renderProgress (b : Bound) : Checked Rendering := do
  let label ← b.required "label"
  let value ← b.required "value"
  let fraction ← expectNumber "progress" "value" value
  if 0 ≤ fraction ∧ fraction ≤ 1 then
    let width ← b.width
    .ok ⟨.dict [("label", label), ("value", value)], value, width⟩
  else
    .error (.validation ("progress() value must be in [0, 1], got " ++ value.display) [])

/-- What a component call with bound arguments shows and returns. -/
def rendering (c : Component) (b : Bound) (state : Option Value) : Checked Rendering :=
  match c with
  | .text => renderText b
  | .alert => renderAlert b
  | .button => renderButton b state
  | .checkbox => renderCheckbox b state
  | .slider => renderSlider b state
  | .selectbox => renderSelectbox b state
  | .textInput => renderTextInput b state
  | .table => renderTable b
  | .progress => renderProgress b
  | .separator => .ok ⟨.null, .null, 1⟩

/-- The unit that a component call emits under an id, and the value of the call. -/
def render (c : Component) (id : UnitId) (args : Arguments) (state : Option Value) :
    Checked (OutputUnit × Value) := do
  let b ← args.bind c.name c.params
  let r ← c.rendering b state
  .ok (⟨id, c.name, r.payload, r.width⟩, r.result)

end Component

end ReactiveScript

import ReactiveScript.Evaluation.Error
import ReactiveScript.Tree

/-!
# Binding arguments

A call passes positional and keyword arguments.  Binding gives every argument to the parameter it
is meant for and fails when there are too many, when a keyword names no parameter, and when two
arguments go to one parameter.  Built-in functions and components look up the parameters they need
afterwards; user functions need all of theirs at once.

* `Arguments.bind` — the parameters of a built-in function that got an argument.
* `Bound.required`, `Bound.optional`, `Bound.number`, `Bound.width` — look up one of them.
* `Arguments.bindAll` — the local variables that a user function starts with.
-/

set_option autoImplicit false

namespace ReactiveScript

/-- The evaluated arguments of a call. -/
structure Arguments where
  /-- The arguments without a keyword. -/
  positional : List Value
  /-- The arguments with a keyword, in the order of the call. -/
  keywords : Table String Value

/-- What evaluating something can result in short of a position. -/
abbrev Checked (α : Type) : Type := Except EvalError.Kind α

/-- Fail for a reason of type. -/
def typeError {α : Type} (message : String) : Checked α := .error (.type message)

/-- The arguments that a built-in function got, by parameter. -/
structure Bound where
  /-- The function. -/
  function : String
  /-- The parameters that got an argument. -/
  values : Table String Value

namespace Arguments

/-- Give the keyword arguments to their parameters.  `unknown` is what to fail with for a keyword
that names none. -/
def bindKeywords (function : String) (params : List String) (unknown : String → EvalError.Kind) :
    Table String Value → List (String × Value) → Checked (Table String Value)
  | bound, [] => .ok bound
  | bound, (k, v) :: rest =>
    if k ∉ params then .error (unknown k)
    else if Table.has k bound then
      typeError (function ++ "() got multiple values for argument '" ++ k ++ "'")
    else bindKeywords function params unknown (Table.put k v bound) rest

/-- Bind the arguments of a built-in function with the given parameters. -/
def bind (function : String) (params : List String) (args : Arguments) : Checked Bound :=
  if params.length < args.positional.length then
    typeError (function ++ "() takes at most " ++ toString params.length ++ " arguments (" ++
      toString args.positional.length ++ " given)")
  else
    (bindKeywords function params
      (fun k => .validation ("unknown argument '" ++ k ++ "' for " ++ function ++ "()") params)
      (params.zip args.positional) args.keywords).map fun values => ⟨function, values⟩

/-- The parameters of a user function with their values; every one needs a value. -/
def complete (function : String) (bound : Table String Value) :
    List String → Checked (Table String Value)
  | [] => .ok []
  | p :: ps =>
    match Table.get? p bound with
    | some v => (complete function bound ps).map ((p, v) :: ·)
    | none => typeError (function ++ "() missing required argument: '" ++ p ++ "'")

/-- The local variables that a call of a user function starts with. -/
def bindAll (d : FunctionDef) (args : Arguments) : Checked (Table String Value) :=
  if d.params.length < args.positional.length then
    typeError (d.name ++ "() takes " ++ toString d.params.length ++
      " positional arguments but " ++ toString args.positional.length ++ " were given")
  else do
    let bound ← bindKeywords d.name d.params
      (fun k => .validation (d.name ++ "() got an unexpected keyword argument '" ++ k ++ "'")
        d.params)
      (d.params.zip args.positional) args.keywords
    complete d.name bound d.params

end Arguments

/-- The number that an argument counts as. -/
def expectNumber (function param : String) (v : Value) : Checked Float :=
  match v.toNumber? with
  | some n => .ok n
  | none =>
    typeError (function ++ "() argument '" ++ param ++ "' must be a number, not " ++ v.typeName)

namespace Bound

/-- An argument that may be left out; passing none at all counts as leaving it out. -/
def optional (b : Bound) (param : String) : Option Value :=
  match Table.get? param b.values with
  | some v => if v.isNull then none else some v
  | none => none

/-- An argument that has to be there. -/
def required (b : Bound) (param : String) : Checked Value :=
  match Table.get? param b.values with
  | some v => .ok v
  | none => typeError (b.function ++ "() missing required argument: '" ++ param ++ "'")

/-- A number that may be left out. -/
def number (b : Bound) (param : String) (dflt : Float) : Checked Float :=
  match b.optional param with
  | some v => expectNumber b.function param v
  | none => .ok dflt

/-- The declared width of a unit, above zero and at most one. -/
def width (b : Bound) : Checked Float := do
  let size ← b.number "size" 1
  if 0 < size ∧ size ≤ 1 then .ok size
  else .error (.validation
    (b.function ++ "() size must be in (0, 1], got " ++ Value.numberText size) [])

end Bound

end ReactiveScript

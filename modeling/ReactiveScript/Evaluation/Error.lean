import ReactiveScript.Duration
import ReactiveScript.Span

/-!
# Evaluation errors

What a script can raise while it runs, with the position of the failure and the calls that led
there.

* `EvalError.Kind.text` — the wording of each kind.
* `EvalError.text`, `EvalError.stackTrace` — the message with its position, and the trace with the
  outermost call first.
-/

set_option autoImplicit false

namespace ReactiveScript

namespace EvalError

/-- What went wrong. -/
inductive Kind where
  /-- A name that nothing is known by. -/
  | name (name : String)
  /-- Values of the wrong type or number. -/
  | type (message : String)
  /-- An argument that is not accepted, and what would have been. -/
  | validation (message : String) (alternatives : List String)
  /-- An item that is not there. -/
  | index (message : String)
  /-- A key that is not there. -/
  | key (key : String)
  /-- A division by zero. -/
  | zeroDivision
  /-- A result that would be too large. -/
  | overflow (message : String)
  /-- Too many calls inside each other. -/
  | recursion (limit : Nat)
  /-- The deadline has passed. -/
  | timeout (limit : Duration)
  deriving DecidableEq, Repr

/-- The choices behind a validation message. -/
def hint (alternatives : List String) : String :=
  if alternatives.isEmpty then ""
  else " (expected one of: " ++ String.intercalate ", " alternatives ++ ")"

/-- The wording of what went wrong. -/
def Kind.text : Kind → String
  | .name n => "NameError: name '" ++ n ++ "' is not defined"
  | .type m => "TypeError: " ++ m
  | .validation m alternatives => "ValidationError: " ++ m ++ hint alternatives
  | .index m => "IndexError: " ++ m
  | .key k => "KeyError: " ++ k
  | .zeroDivision => "ZeroDivisionError: division by zero"
  | .overflow m => "OverflowError: " ++ m
  | .recursion limit =>
    "RecursionError: maximum recursion depth of " ++ toString limit ++ " exceeded"
  | .timeout limit => "TimeoutError: node exceeded its deadline of " ++ limit.text

/-- A call that an error passed through. -/
structure Frame where
  /-- The function that was called. -/
  function : String
  /-- Where it was called. -/
  span : Span
  deriving DecidableEq, Repr

end EvalError

/-- A script raised. -/
structure EvalError where
  /-- What went wrong. -/
  kind : EvalError.Kind
  /-- Where. -/
  span : Span
  /-- The calls it passed through, innermost first. -/
  trace : List EvalError.Frame
  deriving DecidableEq, Repr

namespace EvalError

/-- Whether an argument was not accepted. -/
def isValidation (e : EvalError) : Bool :=
  match e.kind with
  | .validation .. => true
  | _ => false

/-- The message with its position. -/
def text (e : EvalError) : String := e.kind.text ++ " at " ++ e.span.text

/-- One line of a trace. -/
def Frame.text (f : Frame) : String := "  " ++ f.span.text ++ ", in " ++ f.function ++ "\n"

/-- The trace, outermost call first, with the message at the end. -/
def stackTrace (e : EvalError) : String :=
  "Traceback (most recent call last):\n" ++ String.join (e.trace.reverse.map Frame.text) ++
    "  " ++ e.span.text ++ "\n" ++ e.kind.text

end EvalError

end ReactiveScript

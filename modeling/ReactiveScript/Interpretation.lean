import ReactiveScript.Evaluation
import ReactiveScript.Evaluation.Log
import ReactiveScript.Token

/-!
# Interpreting a whole script

`Script.interpret` runs a script from top to bottom, without a graph, and returns the units it
emitted or the reason why it could not be run to its end.  The lines it printed until then are kept
in either case (`Script.interpretLogged`).
-/

set_option autoImplicit false

namespace ReactiveScript

/-- Why a script could not be run. -/
inductive ScriptError where
  /-- It is not well-formed. -/
  | parse (e : SyntaxError)
  /-- It raised. -/
  | runtime (e : EvalError)
  /-- It panicked. -/
  | panicked (message : String)

namespace ScriptError

/-- The wording of the reason. -/
def text : ScriptError → String
  | .parse e => "failed to parse script: " ++ e.text
  | .runtime e => "error executing script: " ++ e.text
  | .panicked m => "script execution panicked: " ++ m

/-- The trace of an error that a script raised. -/
def stackTrace? : ScriptError → Option String
  | .runtime e => some e.stackTrace
  | _ => none

/-- The class of the reason, as observers are told it. -/
def category : ScriptError → String
  | .parse _ => "parse"
  | .runtime e => if e.isValidation then "validation" else "runtime"
  | .panicked _ => "runtime"

end ScriptError

namespace Script

/-- Run a script from top to bottom: the lines it printed, and the units it emitted if it got to its
end. -/
def interpretLogged (script : Script) (file : String) (inputs : InputTable) (limit : Nat) :
    List String × Except ScriptError (List OutputUnit) :=
  let setting : Setting Log := ⟨file, limit, Log.host (fun _ => none) inputs⟩
  let (ending, _, log) := script.run setting (.fresh []) (.start none)
  (log.printed.toList, match ending with
    | .value _ => .ok log.emitted.toList
    | .error e => .error (.runtime e)
    | .panic m => .error (.panicked m))

/-- The units that a script emits. -/
def interpret (script : Script) (file : String) (inputs : InputTable) (limit : Nat) :
    Except ScriptError (List OutputUnit) :=
  (script.interpretLogged file inputs limit).2

end Script

end ReactiveScript

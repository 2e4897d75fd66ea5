import ReactiveScript.Evaluation.Arguments
import ReactiveScript.OutputUnit

/-!
# The machine that scripts run on

Evaluating a piece of script changes two things: the machine — functions, module variables and the
counters behind unit ids — and whatever surrounds the script, which it reaches through a `Host`
over a state of the host's own.

* `Host` — what a script can ask of its surroundings.
* `Machine`, `Scope` — the state of a run, and the variables of one call.
* `Eval` — computations that read and change both states and end with a value, an error or a panic.
-/

set_option autoImplicit false

namespace ReactiveScript

/-- What a script can ask of its surroundings, over a state `σ`. -/
structure Host (σ : Type) where
  /-- The value of a module-level name that the script itself has not assigned. -/
  global : String → σ → Option Value × σ
  /-- The value that the session holds for an input unit. -/
  input : UnitId → σ → Option Value
  /-- Accept a unit, from the component call at a site. -/
  emit : Site → OutputUnit → σ → σ
  /-- Accept a printed line. -/
  print : String → σ → σ
  /-- Look at the clock: the limit, if there is one and it has been reached. -/
  expired : σ → Option Duration × σ
  /-- What the library's sort makes of many items that do not all compare: it comes to two that do
  not, or notices that there is no order and panics. -/
  disorder : List Value → Option (Value × Value)

/-- The state of a run. -/
structure Machine where
  /-- The functions that can be called. -/
  functions : Table String FunctionDef
  /-- The module variables that have been assigned. -/
  globals : Table String Value
  /-- The top-level statement that units are attributed to. -/
  anchor : Span
  /-- How many units each call has emitted under this anchor. -/
  occurrences : Table Span Nat
  /-- How many calls are under way inside each other. -/
  depth : Nat

/-- The variables of one call. -/
structure Scope where
  /-- The variables with their values. -/
  locals : Table String Value
  /-- Whether assignments go to the module variables instead. -/
  isModule : Bool

/-- The scope of top-level statements. -/
def Scope.module : Scope := ⟨[], true⟩

/-- The scope of a call that starts with some variables. -/
def Scope.ofLocals (locals : Table String Value) : Scope := ⟨locals, false⟩

/-- How a computation ends. -/
inductive Ending (ε α : Type) where
  /-- With a value. -/
  | value (a : α)
  /-- With an error. -/
  | error (e : ε)
  /-- With a panic. -/
  | panic (message : String)

/-- A computation on a machine and the state of its surroundings. -/
def Eval (σ α : Type) : Type := Machine → σ → Ending EvalError α × Machine × σ

namespace Eval

variable {σ α β : Type}

/-- End with a value. -/
@[inline] def value (a : α) : Eval σ α := fun m s => (.value a, m, s)

/-- Go on with the value of a computation, unless it ended otherwise. -/
@[inline] def andThen (x : Eval σ α) (f : α → Eval σ β) : Eval σ β := fun m s =>
  match x m s with
  | (.value a, m, s) => f a m s
  | (.error e, m, s) => (.error e, m, s)
  | (.panic p, m, s) => (.panic p, m, s)

instance : Monad (Eval σ) where
  pure := value
  bind := andThen

/-- End with an error at a position. -/
def fail (kind : EvalError.Kind) (span : Span) : Eval σ α :=
  fun m s => (.error ⟨kind, span, []⟩, m, s)

/-- End with a panic. -/
def panic (message : String) : Eval σ α := fun m s => (.panic message, m, s)

/-- What was computed without a position, with errors placed at one. -/
def ofChecked (span : Span) : Checked α → Eval σ α
  | .ok a => value a
  | .error kind => fail kind span

/-- Read the machine. -/
@[inline] def machine : Eval σ Machine := fun m s => (.value m, m, s)

/-- Change the machine. -/
@[inline] def change (f : Machine → Machine) : Eval σ Unit := fun m s => (.value (), f m, s)

/-- Ask the surroundings. -/
@[inline] def ask (f : σ → α × σ) : Eval σ α := fun m s =>
  let (a, s) := f s
  (.value a, m, s)

/-- Tell the surroundings. -/
@[inline] def tell (f : σ → σ) : Eval σ Unit := fun m s => (.value (), m, f s)

end Eval

namespace Machine

/-- A machine before a run, with some functions. -/
def fresh (functions : Table String FunctionDef) : Machine := ⟨functions, [], .none, [], 0⟩

/-- Attribute the units to come to another top-level statement. -/
def anchored (anchor : Span) (m : Machine) : Machine := { m with anchor, occurrences := [] }

/-- The number of units that a call has emitted under this anchor. -/
def occurrence (m : Machine) (call : Span) : Nat := (Table.get? call m.occurrences).getD 0

/-- Count one more unit of a call. -/
def count (call : Span) (m : Machine) : Machine :=
  { m with occurrences := Table.put call (m.occurrence call + 1) m.occurrences }

end Machine

end ReactiveScript

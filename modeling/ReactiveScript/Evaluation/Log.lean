import ReactiveScript.Clock
import ReactiveScript.Evaluation.Machine
import ReactiveScript.Helper

/-!
# The log of a run

Surroundings that answer from fixed tables and keep a `Log`: the units a run has emitted, the lines
it has printed, and its clock.

Here all sorting is inserting.  Of more than `Helper.maxInserted` items that do not all compare, the
library may come to two others first, or panic.
-/

set_option autoImplicit false

namespace ReactiveScript

/-- What a run has emitted and printed, in order, and its clock. -/
structure Log where
  /-- The units. -/
  emitted : Array OutputUnit
  /-- The lines. -/
  printed : Array String
  /-- The clock. -/
  clock : Clock

namespace Log

/-- The log of a run that starts now, possibly with a deadline. -/
def start (limit : Option Duration) : Log := ⟨#[], #[], .start limit⟩

/-- One more unit. -/
def emit (u : OutputUnit) (l : Log) : Log := { l with emitted := l.emitted.push u }

/-- One more line. -/
def print (line : String) (l : Log) : Log := { l with printed := l.printed.push line }

/-- Look at the clock. -/
def look (l : Log) : Option Duration × Log :=
  let (limit, clock) := l.clock.look
  (limit, { l with clock })

/-- Surroundings with given module-level names and inputs. -/
def host (globals : String → Option Value) (inputs : InputTable) : Host Log where
  global name l := (globals name, l)
  input id _ := Table.get? id inputs
  emit _ := emit
  print := print
  expired := look
  disorder := Helper.clash?

end Log

end ReactiveScript

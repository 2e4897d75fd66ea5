import ReactiveScript.OutputUnit

/-!
# What was last shown

A `Memo` keeps, by unit, the last JSON form that went out.  A new form is worth showing only if it
differs from the one on record; `Memo.offer` answers that and records it, and `Memo.sift` does so for
a list.  NaN and infinities are null in this form, so that two of them are no difference.
-/

set_option autoImplicit false

namespace ReactiveScript

/-- The last form of each unit. -/
structure Memo where
  /-- The forms, by unit. -/
  forms : Table UnitId Json
  deriving Inhabited

namespace Memo

/-- Nothing shown yet. -/
def empty : Memo := ⟨[]⟩

/-- The form on record for a unit. -/
def get? (id : UnitId) (m : Memo) : Option Json := Table.get? id m.forms

/-- Whether a form is the one on record for a unit. -/
def records (id : UnitId) (j : Json) (m : Memo) : Bool :=
  match m.get? id with
  | some before => before.same j
  | none => false

/-- Whether a form is new for a unit; a new one is recorded. -/
def offer (id : UnitId) (j : Json) (m : Memo) : Bool × Memo :=
  if m.records id j then (false, m) else (true, ⟨Table.put id j m.forms⟩)

/-- The items whose form is new, in order; their forms are recorded one by one, so that an item may
make a later one with the same id old. -/
def sift {α : Type} (form : α → UnitId × Json) : List α → Memo → List α × Memo
  | [], m => ([], m)
  | a :: as, m =>
    let (isNew, m) := m.offer (form a).1 (form a).2
    let (rest, m) := sift form as m
    (if isNew then a :: rest else rest, m)

/-- Drop a unit, so that its next form is new; whether it was there. -/
def forget (id : UnitId) (m : Memo) : Bool × Memo :=
  (Table.has id m.forms, ⟨Table.erase id m.forms⟩)

/-- Keep the entries of some units and count the others. -/
def retain (keep : UnitId → Bool) (m : Memo) : Nat × Memo :=
  let kept := m.forms.filter fun e => keep e.1
  (m.forms.length - kept.length, ⟨kept⟩)

end Memo

end ReactiveScript

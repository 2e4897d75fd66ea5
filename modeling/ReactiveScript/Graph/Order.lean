import ReactiveScript.Graph

/-!
# The order of execution

`Graph.order` lists the nodes with every dependency before its dependents; of the nodes whose
dependencies are all listed, the one with the least id comes next, so that independent statements
keep the order of the source.

Every node waits for as many nodes as it has dependencies.  Taking a node out leaves its dependents
waiting for one node less.
-/

set_option autoImplicit false

namespace ReactiveScript

/-- A node and how many of its dependencies have not been listed. -/
structure Waiting where
  /-- The node. -/
  id : NodeId
  /-- The number of dependencies it waits for. -/
  count : Nat

namespace Waiting

/-- One dependency less, if the node is among the dependents of the one that was listed. -/
def release (dependents : List NodeId) (w : Waiting) : Waiting :=
  if w.id ∈ dependents then { w with count := w.count - 1 } else w

/-- Take the first node that waits for none out of a list. -/
def takeReady : List Waiting → Option (NodeId × List Waiting)
  | [] => none
  | w :: ws =>
    if w.count = 0 then some (w.id, ws) else (takeReady ws).map fun (id, rest) => (id, w :: rest)

theorem length_of_takeReady {ws rest : List Waiting} {id : NodeId}
    (h : takeReady ws = some (id, rest)) : ws.length = rest.length + 1 := by
  induction ws generalizing rest id with
  | nil => cases h
  | cons w ws ih =>
    by_cases hw : w.count = 0
    · simp only [takeReady, if_pos hw, Option.some.injEq, Prod.mk.injEq] at h
      simp [h.2]
    · simp only [takeReady, if_neg hw, Option.map_eq_some_iff, Prod.mk.injEq] at h
      obtain ⟨⟨id', rest'⟩, ht, _, rfl⟩ := h
      simp [ih ht]

end Waiting

namespace Graph

/-- All nodes, in the order of their ids, with the number of their dependencies. -/
def waiting (g : Graph) : List Waiting :=
  (NodeId.set g.ids).filterMap fun id => (g.node? id).map fun n => ⟨id, n.dependencies.length⟩

/-- List nodes that wait for none, always the first of them. -/
def orderFrom (g : Graph) (pending : List Waiting) : List NodeId :=
  match _h : Waiting.takeReady pending with
  | none => []
  | some (id, rest) => id :: g.orderFrom (rest.map (Waiting.release (g.dependentsOf id)))
termination_by pending.length
decreasing_by
  rw [Waiting.length_of_takeReady _h]
  simp

/-- All nodes, every dependency before its dependents and otherwise by id. -/
def order (g : Graph) : List NodeId := g.orderFrom g.waiting

end Graph

end ReactiveScript

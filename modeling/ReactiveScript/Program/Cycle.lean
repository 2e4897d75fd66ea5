import ReactiveScript.Program

/-!
# Finding a cycle

`Cycle.find?` looks for a cycle among declared dependencies by depth-first search and returns the
edge that closes the first one it meets.

The search keeps the nodes it has not entered, and the path from the node it started at to the one
it is at, each with the dependencies that it still has to follow.  An edge back to the path closes
a cycle; an edge to a node that is neither on the path nor new leads to nothing new.  Every step
enters a node or follows or drops an edge, so the search ends.
-/

set_option autoImplicit false

namespace ReactiveScript

namespace Cycle

/-- A node on the path of the search, with the dependencies still to follow. -/
structure Stop where
  /-- The node. -/
  node : NodeId
  /-- The dependencies still to follow. -/
  left : List NodeId

/-- An edge from a node to one of its dependencies. -/
structure Edge where
  /-- The node. -/
  node : NodeId
  /-- Its dependency. -/
  dependency : NodeId
  deriving DecidableEq, Repr

/-- How much of the path is left to follow. -/
def work : List Stop → Nat
  | [] => 0
  | s :: path => s.left.length + 1 + work path

/-- Follow a path until it is used up: the nodes that were not entered, or an edge that closes a
cycle.  `next` gives the dependencies of a node. -/
def follow (next : NodeId → List NodeId) (fresh : List NodeId) :
    List Stop → Except Edge (List NodeId)
  | [] => .ok fresh
  | ⟨_, []⟩ :: path => follow next fresh path
  | ⟨n, d :: ds⟩ :: path =>
    if d = n ∨ d ∈ path.map Stop.node then .error ⟨n, d⟩
    else if _h : d ∈ fresh then follow next (fresh.erase d) (⟨d, next d⟩ :: ⟨n, ds⟩ :: path)
    else follow next fresh (⟨n, ds⟩ :: path)
termination_by path => (fresh.length, work path)
decreasing_by
  · exact Prod.Lex.right _ (by simp [work])
  · exact Prod.Lex.left _ _ (by
      rw [List.length_erase_of_mem _h]
      exact Nat.sub_lt (List.length_pos_of_mem _h) Nat.one_pos)
  · exact Prod.Lex.right _ (by simp [work])

/-- Start a search from every node of a list that has not been entered. -/
def search (next : NodeId → List NodeId) (fresh : List NodeId) :
    List NodeId → Except Edge (List NodeId)
  | [] => .ok fresh
  | n :: ns =>
    if n ∈ fresh then do
      let fresh ← follow next (fresh.erase n) [⟨n, next n⟩]
      search next fresh ns
    else search next fresh ns

/-- The dependencies that are declared for a node. -/
def declared (nodes : List Declaration) (id : NodeId) : List NodeId :=
  ((nodes.find? (·.id == id)).map Declaration.dependencies).getD []

/-- An edge that closes a cycle among the declared dependencies. -/
def find? (nodes : List Declaration) : Option Edge :=
  match search (declared nodes) (nodes.map Declaration.id) (nodes.map Declaration.id) with
  | .ok _ => none
  | .error e => some e

end Cycle

end ReactiveScript

import ReactiveScript.Graph.Order

/-!
# Running the nodes of a graph

`Graph.execute` walks over all nodes in order and runs those that are selected: all of them, or the
ones in a given set together with those that were forced and those that failed and may be tried
again.  A selected node with a failed dependency is not run but fails in its turn; the dependency
may have failed in this walk or in an earlier one.  A node that is not selected keeps its value,
which its dependents get as their argument.

A failing node is tried again at once, as often as its retry policy says, with pauses between the
attempts.  If a pause does not fit a duration, the walk stops where it is and there is no report.

* `Graph.attempt` — the attempts at one node.
* `Graph.complete` — what a value changes: the reads of the body become edges, its units get a new
  producer, and the value is stored.
-/

set_option autoImplicit false

namespace ReactiveScript

/-- What a walk did. -/
structure Report where
  /-- The nodes that ran and completed, in order. -/
  executed : List NodeId
  /-- The nodes that ran and failed. -/
  failed : List NodeId
  /-- The nodes that did not run because a dependency had failed. -/
  blocked : List NodeId
  /-- The units that each completed node emitted. -/
  outputs : List (NodeId × List OutputUnit)
  /-- The lines that each attempt printed, failed ones included. -/
  printed : List (NodeId × List String)

namespace Report

/-- Nothing done. -/
def empty : Report := ⟨[], [], [], [], []⟩

/-- How many nodes ran. -/
def invoked (r : Report) : Nat := r.executed.length + r.failed.length

/-- The nodes whose earlier output is no longer valid. -/
def invalidated (r : Report) : List NodeId := r.failed ++ r.blocked

/-- Note what an attempt printed. -/
def print (id : NodeId) (lines : List String) (r : Report) : Report :=
  if lines.isEmpty then r else { r with printed := r.printed ++ [(id, lines)] }

/-- Note that a node completed. -/
def complete (id : NodeId) (units : List OutputUnit) (r : Report) : Report :=
  { r with executed := r.executed ++ [id], outputs := r.outputs ++ [(id, units)] }

/-- Note that a node failed. -/
def fail (id : NodeId) (r : Report) : Report := { r with failed := r.failed ++ [id] }

/-- Note that a node did not run. -/
def block (id : NodeId) (r : Report) : Report := { r with blocked := r.blocked ++ [id] }

end Report

namespace Graph

/-! ## One node -/

/-- Let a node depend on what it was seen to read, where that is possible. -/
def recordReads (g : Graph) (id : NodeId) (reads : List NodeId) : Graph :=
  reads.foldl (fun g read =>
    if !g.contains read then g
    else match g.addDependency id read with
      | .ok (_, g) => g
      | .error _ => g) g

/-- A node produced a value. -/
def complete (g : Graph) (id : NodeId) (value : Value) (f : Footprint) : Graph :=
  let g := g.recordReads id f.reads
  let producers := f.log.emitted.toList.foldl (fun ps u => Table.put u.id id ps) g.producers
  { g with producers, values := Table.put id value g.values }.update id (Node.completed f.elapsed)

/-- Try a node up to `left` times, after `failures` failed attempts.  `fits` says whether the pause
after so many failures fits a duration; there is no report if one does not. -/
def attempt (inputs : InputTable) (id : NodeId) (body : Body) (args : List Value)
    (fits : Nat → Bool) : Nat → Nat → Graph → Report → Option Report × Graph
  | 0, _, g, r => (some r, g)
  | left + 1, failures, g, r =>
    let g := g.update id Node.called
    let call := ((g.node? id).map Node.calls).getD 0
    let outcome := body ⟨id, args, g.values, inputs, g.nodeTimeout, call⟩
    let f := outcome.footprint
    let r := r.print id f.log.printed.toList
    match outcome.result g.nodeTimeout with
    | .ok value => (some (r.complete id f.log.emitted.toList), g.complete id value f)
    | .error e =>
      let g := g.update id (Node.failed f.elapsed e)
      if left = 0 then (some (r.fail id), g.update id Node.settle)
      else if fits (failures + 1) then attempt inputs id body args fits left (failures + 1) g r
      else (none, g)

/-- The stored values of some nodes; where there is none, nothing. -/
def arguments (g : Graph) (params : List NodeId) : List Value :=
  params.map fun id => (g.value? id).getD .null

/-- Run a node, as often as its retry policy allows. -/
def run (g : Graph) (inputs : InputTable) (id : NodeId) (n : Node) (r : Report) :
    Option Report × Graph :=
  attempt inputs id n.body (g.arguments n.params) (n.pauseFits g.defaultRetry)
    (n.tries g.defaultRetry) 0 (g.update id Node.begin) r

/-! ## A walk -/

/-- Whether a node is selected: in a walk over a set, if it is in it, is forced, or is to be tried
again. -/
def selects (g : Graph) (recompute : Option (List NodeId)) (id : NodeId) (n : Node) : Bool :=
  match recompute with
  | none => true
  | some ids => ids.contains id || n.force || n.wantsRetry g.defaultRetry

/-- Whether a node has failed. -/
def hasFailed (g : Graph) (id : NodeId) : Bool :=
  ((g.node? id).map fun n => n.status == .error).getD false

/-- The turn of a node. -/
def visit (g : Graph) (recompute : Option (List NodeId)) (inputs : InputTable) (id : NodeId)
    (r : Report) : Option Report × Graph :=
  match g.node? id with
  | none => (some r, g)
  | some n =>
    if !g.selects recompute id n then (some r, g)
    else match n.dependencies.find? g.hasFailed with
      | some failed => (some (r.block id), g.update id fun n => (n.blocked failed).settle)
      | none => g.run inputs id n r

/-- The turns of several nodes, one after another. -/
def visitAll (recompute : Option (List NodeId)) (inputs : InputTable) :
    List NodeId → Graph → Report → Option Report × Graph
  | [], g, r => (some r, g)
  | id :: ids, g, r =>
    match g.visit recompute inputs id r with
    | (none, g) => (none, g)
    | (some r, g) => visitAll recompute inputs ids g r

/-- Run the selected nodes, in order. -/
def execute (g : Graph) (recompute : Option (List NodeId)) (inputs : InputTable) :
    Option Report × Graph :=
  visitAll recompute inputs g.order g .empty

end Graph

end ReactiveScript

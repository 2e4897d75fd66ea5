import ReactiveScript.Graph.Body
import ReactiveScript.Settings

/-!
# The dependency graph

A `Graph` holds the nodes with their bodies and edges, the value that each node produced last, and
which node emitted each unit last.  Edges are kept at both ends: the dependencies of a node, and its
dependents.

* `Graph.affected` — a set of nodes with everything that depends on them.
* `Graph.register`, `Graph.addDependency` — a node, and an edge.  An edge that would close a cycle
  is refused, and the graph stays as it was.
* `Graph.setRetry`, `Graph.force`, `Graph.reset` — a node's own retry policy, nodes that run next
  time in any case, and an empty graph.

Sets of nodes are sorted lists without repetition.
-/

set_option autoImplicit false

namespace ReactiveScript

namespace NodeId

/-- Put a node where it belongs in a set. -/
def insert (n : NodeId) : List NodeId → List NodeId
  | [] => [n]
  | m :: ms =>
    if n.text < m.text then n :: m :: ms else if n = m then m :: ms else m :: insert n ms

theorem mem_insert {n m : NodeId} {ns : List NodeId} :
    m ∈ insert n ns ↔ m = n ∨ m ∈ ns := by
  induction ns with
  | nil => simp [insert]
  | cons k ks ih =>
    simp only [insert]
    split
    · simp
    · split
      · rename_i h
        subst h
        simp
      · simp only [List.mem_cons, ih]
        exact or_left_comm

/-- The set of the nodes of a list. -/
def set (ns : List NodeId) : List NodeId := ns.foldr insert []

/-- The nodes of a list, each where it comes first. -/
def distinct : List NodeId → List NodeId
  | [] => []
  | n :: ns => n :: (distinct ns).filter (· ≠ n)

end NodeId

/-- What has become of a node. -/
inductive NodeStatus where
  /-- It has not run yet. -/
  | pending
  /-- It is running. -/
  | running
  /-- It ran and completed. -/
  | completed
  /-- It failed, or could not run. -/
  | error
  deriving DecidableEq, Repr

/-- The word for a status. -/
def NodeStatus.text : NodeStatus → String
  | .pending => "pending"
  | .running => "running"
  | .completed => "completed"
  | .error => "error"

/-- Why an operation on a graph was refused. -/
inductive GraphError where
  /-- The edge would close a cycle. -/
  | cycle (node dependency : NodeId)
  /-- There is no such node. -/
  | unknownNode (node : NodeId)
  deriving DecidableEq, Repr

/-- The wording of a refusal. -/
def GraphError.text : GraphError → String
  | .cycle n d => "adding " ++ n.text ++ " -> " ++ d.text ++ " would close a dependency cycle"
  | .unknownNode n => "unknown node: " ++ n.text

/-- The number of thirty-two-bit numbers. -/
abbrev Node.countBound : Nat := 4294967296

/-- A node. -/
structure Node where
  /-- What it does. -/
  body : Body
  /-- The nodes whose values are its arguments, in order. -/
  params : List NodeId
  /-- The nodes it depends on: its parameters, and what it was seen to read. -/
  dependencies : List NodeId
  /-- The nodes that depend on it. -/
  dependents : List NodeId
  /-- What has become of it. -/
  status : NodeStatus
  /-- Whether it runs next time in any case. -/
  force : Bool
  /-- How often it has been tried; behind the last thirty-two-bit number the count starts again. -/
  attempts : Fin Node.countBound
  /-- Why it failed last, if it did. -/
  lastError : Option NodeError
  /-- How long its last attempt took. -/
  lastDuration : Option Duration
  /-- Its own retry policy. -/
  retry : Option RetryPolicy
  /-- Whether it only stands for a node that has been named and not yet registered. -/
  isPlaceholder : Bool
  /-- How often its body has been called. -/
  calls : Nat

namespace Node

/-- A node that has not run. -/
def fresh (params : List NodeId) (body : Body) : Node where
  body := body
  params := params
  dependencies := NodeId.set params
  dependents := []
  status := .pending
  force := false
  attempts := 0
  lastError := none
  lastDuration := none
  retry := none
  isPlaceholder := false
  calls := 0

/-- A node that stands for one to come. -/
def placeholder : Node := { fresh [] .idle with isPlaceholder := true }

/-- The same node with another body and other parameters.  Dependencies that it was only seen to
read are dropped. -/
def redefine (params : List NodeId) (body : Body) (n : Node) : Node :=
  { n with body, params, dependencies := NodeId.set params, isPlaceholder := false, calls := 0 }

/-- A further dependency. -/
def addDependency (d : NodeId) (n : Node) : Node :=
  { n with dependencies := NodeId.insert d n.dependencies }

/-- A further dependent. -/
def addDependent (d : NodeId) (n : Node) : Node :=
  { n with dependents := NodeId.insert d n.dependents }

/-- One dependent less. -/
def removeDependent (d : NodeId) (n : Node) : Node :=
  { n with dependents := n.dependents.erase d }

/-- The node starts to run. -/
def begin (n : Node) : Node := { n with status := .running }

/-- The body has been called once more. -/
def called (n : Node) : Node := { n with calls := n.calls + 1 }

/-- An attempt completed. -/
def completed (took : Duration) (n : Node) : Node :=
  { n with
    attempts := n.attempts + 1
    lastDuration := some took
    status := .completed
    lastError := none
    force := false }

/-- An attempt failed. -/
def failed (took : Duration) (e : NodeError) (n : Node) : Node :=
  { n with
    attempts := n.attempts + 1
    lastDuration := some took
    status := .error
    lastError := some e }

/-- The node could not run because of another one. -/
def blocked (dependency : NodeId) (n : Node) : Node :=
  { n with status := .error, lastError := some (.dependencyFailed dependency) }

/-- The node has had its turn. -/
def settle (n : Node) : Node := { n with force := false }

/-- How often the node is tried in one turn. -/
def tries (dflt : Option RetryPolicy) (n : Node) : Nat :=
  ((n.retry.or dflt).map fun p => max 1 p.maxAttempts).getD 1

/-- Whether the pause after so many failed attempts fits a duration. -/
def pauseFits (dflt : Option RetryPolicy) (n : Node) (failed : Nat) : Bool :=
  (n.retry.or dflt).all fun p => (p.delayAfter failed).isSome

/-- Whether a failed node is tried again without being asked for: it has a retry policy and failed
by itself. -/
def wantsRetry (dflt : Option RetryPolicy) (n : Node) : Bool :=
  n.status == .error && (n.retry.or dflt).isSome &&
    !(n.lastError.map NodeError.isBlock).getD false

end Node

/-- A dependency graph with what its nodes produced. -/
structure Graph where
  /-- The nodes. -/
  nodes : Table NodeId Node
  /-- The value that each node produced last. -/
  values : Table NodeId Value
  /-- The node that emitted each unit last. -/
  producers : Table UnitId NodeId
  /-- The retry policy of nodes that have none of their own. -/
  defaultRetry : Option RetryPolicy
  /-- How long the body of a node may take. -/
  nodeTimeout : Option Period

namespace Graph

/-- A graph without nodes. -/
def empty (defaultRetry : Option RetryPolicy) (nodeTimeout : Option Period) : Graph :=
  ⟨[], [], [], defaultRetry, nodeTimeout⟩

/-- A graph without nodes, under the settings of a session. -/
def ofSettings (s : Settings) : Graph := empty s.retry s.nodeTimeout

/-- The node with an id. -/
def node? (g : Graph) (id : NodeId) : Option Node := Table.get? id g.nodes

/-- Whether there is a node with an id. -/
def contains (g : Graph) (id : NodeId) : Bool := Table.has id g.nodes

/-- The ids of all nodes. -/
def ids (g : Graph) : List NodeId := Table.keys g.nodes

/-- The value that a node produced last. -/
def value? (g : Graph) (id : NodeId) : Option Value := Table.get? id g.values

/-- The node that emitted a unit last. -/
def producer? (g : Graph) (unit : UnitId) : Option NodeId := Table.get? unit g.producers

/-- The nodes that depend on a node. -/
def dependentsOf (g : Graph) (id : NodeId) : List NodeId :=
  ((g.node? id).map Node.dependents).getD []

/-- Change a node. -/
def update (g : Graph) (id : NodeId) (f : Node → Node) : Graph :=
  { g with nodes := Table.update id f g.nodes }

/-- Drop all nodes, values and producers. -/
def reset (g : Graph) : Graph := { g with nodes := [], values := [], producers := [] }

/-! ## What depends on what -/

/-- Narrowing a test makes a filtered list shorter if it drops one of its members. -/
theorem length_filter_lt {α : Type} {p q : α → Bool} {l : List α} {a : α}
    (hqp : ∀ b, q b = true → p b = true) (ha : a ∈ l) (hp : p a = true) (hq : q a = false) :
    (l.filter q).length < (l.filter p).length := by
  induction l with
  | nil => cases ha
  | cons b l ih =>
    have hle : (l.filter q).length ≤ (l.filter p).length := by
      clear ih ha
      induction l with
      | nil => simp
      | cons c l ih =>
        by_cases hc : q c = true
        · simp [hc, hqp c hc, ih]
        · by_cases hc' : p c = true <;> simp [hc, hc'] <;> omega
    rcases List.mem_cons.1 ha with rfl | ha
    · simp only [List.filter_cons, hp, hq, if_true, List.length_cons]
      simp only [Bool.false_eq_true, if_false]
      omega
    · have := ih ha
      by_cases hb : q b = true
      · simp [hb, hqp b hb, this]
      · by_cases hb' : p b = true <;> simp [hb, hb'] <;> omega

/-- The nodes that have not been visited. -/
def unvisited (g : Graph) (visited : List NodeId) : List NodeId :=
  g.ids.filter fun id => !visited.contains id

theorem length_unvisited_lt {g : Graph} {id : NodeId} {n : Node} {visited : List NodeId}
    (hn : g.node? id = some n) (hv : id ∉ visited) :
    (g.unvisited (NodeId.insert id visited)).length < (g.unvisited visited).length := by
  refine length_filter_lt (a := id) (fun b hb => ?_) (Table.mem_keys_of_get? hn) ?_ ?_
  · simp only [Bool.not_eq_true', List.contains_eq_mem, decide_eq_false_iff_not, NodeId.mem_insert,
      not_or] at hb ⊢
    exact hb.2
  · simpa using hv
  · simp [NodeId.mem_insert]

/-- Add the nodes of a queue, and whatever depends on them, to the nodes visited before.  A node
that is new puts its dependents at the end of the queue. -/
def reach (g : Graph) (visited : List NodeId) : List NodeId → List NodeId
  | [] => visited
  | id :: queue =>
    match _hn : g.node? id with
    | none => g.reach visited queue
    | some n =>
      if _hv : id ∈ visited then g.reach visited queue
      else g.reach (NodeId.insert id visited) (queue ++ n.dependents)
termination_by queue => ((g.unvisited visited).length, queue.length)
decreasing_by
  · exact Prod.Lex.right _ (Nat.lt_succ_self _)
  · exact Prod.Lex.right _ (Nat.lt_succ_self _)
  · exact Prod.Lex.left _ _ (length_unvisited_lt _hn _hv)

/-- Some nodes with everything that depends on them; ids that are not in the graph do not count. -/
def affected (g : Graph) (changed : List NodeId) : List NodeId := g.reach [] changed

/-! ## Nodes and edges -/

/-- A node for every id of a list that has none yet. -/
def withPlaceholders (g : Graph) : List NodeId → Graph
  | [] => g
  | id :: rest =>
    if g.contains id then g.withPlaceholders rest
    else ({ g with nodes := Table.put id .placeholder g.nodes }).withPlaceholders rest

/-- Take a node out of the dependents of several others. -/
def dropDependent (g : Graph) (id : NodeId) (deps : List NodeId) : Graph :=
  deps.foldl (fun g d => g.update d (Node.removeDependent id)) g

/-- Put a node into the dependents of several others. -/
def addDependent (g : Graph) (id : NodeId) (deps : List NodeId) : Graph :=
  deps.foldl (fun g d => g.update d (Node.addDependent id)) g

/-- The parameter that would close a cycle if a node depended on it. -/
def closing? (g : Graph) (id : NodeId) (params : List NodeId) : Option NodeId :=
  if id ∈ params then some id
  else if g.contains id then params.find? fun d => (g.affected [id]).contains d
  else none

/-- Register a node, or redefine it if it is known.  A known node keeps what has become of it. -/
def register (g : Graph) (id : NodeId) (dependencies : List NodeId) (body : Body) :
    Except GraphError Graph :=
  let params := NodeId.distinct dependencies
  match g.closing? id params with
  | some d => .error (.cycle id d)
  | none =>
    let g := g.withPlaceholders params
    let g := match g.node? id with
      | some n =>
        (g.update id (Node.redefine params body)).dropDependent id
          (n.dependencies.filter fun d => !params.contains d)
      | none => { g with nodes := Table.put id (.fresh params body) g.nodes }
    .ok (g.addDependent id params)

/-- Let a node depend on another one; whether the edge is new. -/
def addDependency (g : Graph) (id dependency : NodeId) : Except GraphError (Bool × Graph) :=
  match g.node? id with
  | none => .error (.unknownNode id)
  | some n =>
    if id = dependency ∨ dependency ∈ g.affected [id] then .error (.cycle id dependency)
    else
      let g := g.withPlaceholders [dependency]
      if dependency ∈ n.dependencies then .ok (false, g)
      else
        .ok (true, (g.update id (Node.addDependency dependency)).addDependent id [dependency])

/-- Give a node a retry policy of its own, or take it away. -/
def setRetry (g : Graph) (id : NodeId) (policy : Option RetryPolicy) : Except GraphError Graph :=
  if g.contains id then .ok (g.update id fun n => { n with retry := policy })
  else .error (.unknownNode id)

/-- Let nodes run next time in any case. -/
def force (g : Graph) (ids : List NodeId) : Graph :=
  ids.foldl (fun g id => g.update id fun n => { n with force := true }) g

end Graph

end ReactiveScript

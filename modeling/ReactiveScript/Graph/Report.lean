import ReactiveScript.Graph.Order

/-!
# Looking into a graph

What an observer is shown of a graph: a report for every node, the levels of nodes that could run
side by side, and the chain of dependencies that took longest.

* `Graph.levels` — a node is one level above the highest of its dependencies.
* `Graph.criticalPath` — the slowest chain, by the durations of the last attempts.
-/

set_option autoImplicit false

namespace ReactiveScript

/-- What is shown of a node. -/
structure NodeReport where
  /-- Its id. -/
  name : NodeId
  /-- What has become of it. -/
  status : NodeStatus
  /-- How long its last attempt took, in seconds. -/
  executionTime : Float
  /-- How often it has been tried. -/
  attempts : Nat
  /-- Why it failed. -/
  error : Option String
  /-- What it depends on. -/
  dependencies : List NodeId
  /-- Whether it runs next time in any case. -/
  force : Bool

/-- What is shown of a graph. -/
structure GraphReport where
  /-- The nodes, in order. -/
  nodes : List NodeReport
  /-- The levels. -/
  levels : List (List NodeId)
  /-- The slowest chain. -/
  criticalPath : List NodeId

namespace Graph

/-- What is shown of the nodes, in order. -/
def nodeReports (g : Graph) : List NodeReport :=
  g.order.filterMap fun id => (g.node? id).map fun n =>
    { name := id
      status := n.status
      executionTime := (n.lastDuration.map Duration.seconds).getD 0
      attempts := n.attempts
      error := n.lastError.map NodeError.text
      dependencies := n.dependencies
      force := n.force }

/-- The dependencies of a node. -/
def dependenciesOf (g : Graph) (id : NodeId) : List NodeId :=
  ((g.node? id).map Node.dependencies).getD []

/-- One more than the largest of several numbers, zero if there are none. -/
def above (ns : List Nat) : Nat := ns.foldr (fun n m => max (n + 1) m) 0

/-- The level of every listed node, from those found before. -/
def depths (g : Graph) (found : Table NodeId Nat) : List NodeId → Table NodeId Nat
  | [] => found
  | id :: ids =>
    let depth := above ((g.dependenciesOf id).filterMap (Table.get? · found))
    g.depths (Table.put id depth found) ids

/-- The nodes by level, each level in order. -/
def levels (g : Graph) : List (List NodeId) :=
  let depths := g.depths [] g.order
  (List.range (above (Table.values depths))).map fun level =>
    (depths.filter fun e => e.2 == level).map Prod.fst

/-- A chain of dependencies, last node first, and the nanoseconds it took. -/
structure Chain where
  /-- The nodes. -/
  nodes : List NodeId
  /-- The time. -/
  nanos : Nat

/-- The slower of two chains, the first if they are equally slow. -/
def Chain.slower (best : Option Chain) (c : Chain) : Option Chain :=
  match best with
  | none => some c
  | some b => if b.nanos < c.nanos then some c else some b

/-- The slowest chain that ends at each listed node, from those found before. -/
def chains (g : Graph) (found : Table NodeId Chain) : List NodeId → Table NodeId Chain
  | [] => found
  | id :: ids =>
    let own := ((((g.node? id).bind Node.lastDuration).map fun d => d.nanos.val).getD 0)
    let before := (g.dependenciesOf id).filterMap (Table.get? · found)
    let chain : Chain := match before.foldl Chain.slower none with
      | none => ⟨[id], own⟩
      | some c => ⟨id :: c.nodes, own + c.nanos⟩
    g.chains (Table.put id chain found) ids

/-- The slowest chain of dependencies, first node first. -/
def criticalPath (g : Graph) : List NodeId :=
  match (Table.values (g.chains [] g.order)).foldl Chain.slower none with
  | none => []
  | some c => c.nodes.reverse

/-- What is shown of a graph. -/
def report (g : Graph) : GraphReport := ⟨g.nodeReports, g.levels, g.criticalPath⟩

end Graph

namespace GraphReport

/-- A list of ids in JSON. -/
def idsToJson (ids : List NodeId) : Json := .array (ids.map fun id => .text id.text)

end GraphReport

/-- A report on a node in JSON. -/
def NodeReport.toJson (r : NodeReport) : Json :=
  .object [("name", .text r.name.text), ("status", .text r.status.text),
    ("execution_time", .float r.executionTime), ("attempts", .int r.attempts),
    ("error", Json.orNull .text r.error), ("dependencies", GraphReport.idsToJson r.dependencies),
    ("force_recompute", .bool r.force)]

/-- A report on a graph in JSON. -/
def GraphReport.toJson (r : GraphReport) : Json :=
  .object [("nodes", .array (r.nodes.map NodeReport.toJson)),
    ("levels", .array (r.levels.map idsToJson)), ("critical_path", idsToJson r.criticalPath)]

end ReactiveScript

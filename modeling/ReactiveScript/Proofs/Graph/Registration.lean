import ReactiveScript.Proofs.Graph.Affected

/-!
# Registering nodes

What `Graph.register` and `Graph.addDependency` do to the shape of a graph.  Both put placeholders
where a named node is missing, which is no change to any edge; then the one replaces the
dependencies of its node and the other adds one.  An edge is only added if it closes no cycle, so a
well-formed graph stays well-formed.

* `Node.core` — a node up to its dependents, which is what other nodes cannot change.
* `WellFormed.register`, `WellFormed.addDependency` — the two operations keep graphs well-formed.
-/

set_option autoImplicit false

namespace ReactiveScript

namespace Node

/-- A node up to the nodes that depend on it. -/
def core (n : Node) : Node := { n with dependents := [] }

@[simp] theorem core_addDependent (d : NodeId) (n : Node) : (n.addDependent d).core = n.core := rfl

@[simp] theorem core_removeDependent (d : NodeId) (n : Node) :
    (n.removeDependent d).core = n.core := rfl

@[simp] theorem dependencies_core (n : Node) : n.core.dependencies = n.dependencies := rfl

@[simp] theorem params_core (n : Node) : n.core.params = n.params := rfl

end Node

namespace Graph

open Relation

variable {g g' : Graph}

/-! ## Several nodes at once -/

theorem node?_foldl_update (f : Node → Node) {ids : List NodeId} (h : ids.Nodup) (g : Graph)
    (j : NodeId) :
    (ids.foldl (fun g d => g.update d f) g).node? j
      = if j ∈ ids then (g.node? j).map f else g.node? j := by
  induction ids generalizing g with
  | nil => simp
  | cons i ids ih =>
    obtain ⟨hi, hids⟩ := List.nodup_cons.1 h
    rw [List.foldl_cons, ih hids, node?_update]
    by_cases hj : j = i
    · subst hj
      simp [hi]
    · simp [hj, Ne.symm hj]

theorem ids_foldl_update (f : Node → Node) (ids : List NodeId) (g : Graph) :
    (ids.foldl (fun g d => g.update d f) g).ids = g.ids := by
  induction ids generalizing g with
  | nil => rfl
  | cons i ids ih => rw [List.foldl_cons, ih, ids_update]

theorem core_foldl_update {f : Node → Node} (hf : ∀ n, (f n).core = n.core) (ids : List NodeId)
    (g : Graph) (j : NodeId) :
    ((ids.foldl (fun g d => g.update d f) g).node? j).map Node.core
      = (g.node? j).map Node.core := by
  induction ids generalizing g with
  | nil => rfl
  | cons i ids ih =>
    rw [List.foldl_cons, ih, node?_update]
    split
    · cases g.node? j <;> simp [hf]
    · rfl

theorem node?_addDependent (id : NodeId) {ids : List NodeId} (h : ids.Nodup) (g : Graph)
    (j : NodeId) :
    (g.addDependent id ids).node? j
      = if j ∈ ids then (g.node? j).map (Node.addDependent id) else g.node? j :=
  node?_foldl_update _ h g j

theorem core_addDependent (id : NodeId) (ids : List NodeId) (g : Graph) (j : NodeId) :
    ((g.addDependent id ids).node? j).map Node.core = (g.node? j).map Node.core :=
  core_foldl_update (Node.core_addDependent id) ids g j

theorem core_dropDependent (id : NodeId) (ids : List NodeId) (g : Graph) (j : NodeId) :
    ((g.dropDependent id ids).node? j).map Node.core = (g.node? j).map Node.core :=
  core_foldl_update (Node.core_removeDependent id) ids g j

theorem dependentsOf_addDependent (id : NodeId) {ids : List NodeId} (h : ids.Nodup) (g : Graph)
    {j : NodeId} (hj : j ∈ ids → j ∈ g.ids) :
    (g.addDependent id ids).dependentsOf j
      = if j ∈ ids then NodeId.insert id (g.dependentsOf j) else g.dependentsOf j := by
  rw [dependentsOf, node?_addDependent id h]
  split
  · rename_i hmem
    obtain ⟨n, hn⟩ := mem_ids_iff.1 (hj hmem)
    rw [hn, dependentsOf_eq hn]
    rfl
  · rfl

theorem dependentsOf_dropDependent (id : NodeId) {ids : List NodeId} (h : ids.Nodup) (g : Graph)
    (j : NodeId) :
    (g.dropDependent id ids).dependentsOf j
      = if j ∈ ids then (g.dependentsOf j).erase id else g.dependentsOf j := by
  rw [dependentsOf, dropDependent, node?_foldl_update _ h, dependentsOf]
  split
  · cases g.node? j <;> rfl
  · rfl

/-! Dependencies and parameters can be read off the core of a node. -/

theorem dependenciesOf_of_core {j : NodeId} {n : Node}
    (h : (g.node? j).map Node.core = some n.core) : g.dependenciesOf j = n.dependencies := by
  obtain ⟨m, hm, hmn⟩ := Option.map_eq_some_iff.1 h
  rw [dependenciesOf_eq hm]
  simpa using congrArg Node.dependencies hmn

theorem paramsOf_of_core {j : NodeId} {n : Node}
    (h : (g.node? j).map Node.core = some n.core) : g.paramsOf j = n.params := by
  obtain ⟨m, hm, hmn⟩ := Option.map_eq_some_iff.1 h
  rw [paramsOf_eq hm]
  simpa using congrArg Node.params hmn

theorem dependenciesOf_congr {j : NodeId}
    (h : (g'.node? j).map Node.core = (g.node? j).map Node.core) :
    g'.dependenciesOf j = g.dependenciesOf j := by
  cases hn : g.node? j with
  | none =>
    rw [hn, Option.map_none, Option.map_eq_none_iff] at h
    rw [dependenciesOf, dependenciesOf, hn, h]
  | some n =>
    rw [hn] at h
    rw [dependenciesOf_of_core h, dependenciesOf_eq hn]

theorem paramsOf_congr {j : NodeId}
    (h : (g'.node? j).map Node.core = (g.node? j).map Node.core) :
    g'.paramsOf j = g.paramsOf j := by
  cases hn : g.node? j with
  | none =>
    rw [hn, Option.map_none, Option.map_eq_none_iff] at h
    rw [paramsOf, paramsOf, hn, h]
  | some n =>
    rw [hn] at h
    rw [paramsOf_of_core h, paramsOf_eq hn]

/-! ## Placeholders -/

/-- Add a node under an id that has none yet. -/
theorem node?_put (g : Graph) (id j : NodeId) (n : Node) :
    ({ g with nodes := Table.put id n g.nodes } : Graph).node? j
      = if id = j then some n else g.node? j :=
  Table.get?_put g.nodes id j n

theorem node?_withPlaceholders (ids : List NodeId) (g : Graph) (j : NodeId) :
    (g.withPlaceholders ids).node? j
      = if j ∈ g.ids then g.node? j else if j ∈ ids then some .placeholder else none := by
  induction ids generalizing g with
  | nil =>
    rw [withPlaceholders]
    split
    · rfl
    · rename_i hj
      simpa using node?_eq_none_iff.2 hj
  | cons i ids ih =>
    rw [withPlaceholders]
    split
    · rename_i hi
      have hi : i ∈ g.ids := contains_iff.1 hi
      rw [ih]
      by_cases hj : j ∈ g.ids
      · simp [hj]
      · have hne : j ≠ i := fun heq => hj (heq ▸ hi)
        simp [hj, hne]
    · rename_i hi
      have hi : i ∉ g.ids := fun hmem => hi (contains_iff.2 hmem)
      have hids : ∀ k, k ∈ ({ g with nodes := Table.put i .placeholder g.nodes } : Graph).ids
          ↔ k = i ∨ k ∈ g.ids := fun k => Table.mem_keys_put
      rw [ih, node?_put]
      simp only [hids]
      by_cases hji : j = i
      · subst hji
        simp [hi]
      · simp [hji, Ne.symm hji]

theorem mem_ids_withPlaceholders {ids : List NodeId} {g : Graph} {j : NodeId} :
    j ∈ (g.withPlaceholders ids).ids ↔ j ∈ g.ids ∨ j ∈ ids := by
  rw [mem_ids_iff, node?_withPlaceholders]
  by_cases hj : j ∈ g.ids
  · simpa [hj] using mem_ids_iff.1 hj
  · by_cases hj' : j ∈ ids <;> simp [hj, hj']

theorem nodup_ids_withPlaceholders (ids : List NodeId) {g : Graph} (h : g.ids.Nodup) :
    (g.withPlaceholders ids).ids.Nodup := by
  induction ids generalizing g with
  | nil => exact h
  | cons i ids ih =>
    rw [withPlaceholders]
    split
    · exact ih h
    · exact ih (Table.nodup_keys_put h i _)

theorem dependenciesOf_withPlaceholders (ids : List NodeId) (g : Graph) (j : NodeId) :
    (g.withPlaceholders ids).dependenciesOf j = g.dependenciesOf j := by
  rw [dependenciesOf, node?_withPlaceholders, dependenciesOf]
  split
  · rfl
  · rename_i hj
    rw [node?_eq_none_iff.2 hj]
    split <;> rfl

theorem dependentsOf_withPlaceholders (ids : List NodeId) (g : Graph) (j : NodeId) :
    (g.withPlaceholders ids).dependentsOf j = g.dependentsOf j := by
  rw [dependentsOf, node?_withPlaceholders, dependentsOf]
  split
  · rfl
  · rename_i hj
    rw [node?_eq_none_iff.2 hj]
    split <;> rfl

theorem paramsOf_withPlaceholders (ids : List NodeId) (g : Graph) (j : NodeId) :
    (g.withPlaceholders ids).paramsOf j = g.paramsOf j := by
  rw [paramsOf, node?_withPlaceholders, paramsOf]
  split
  · rfl
  · rename_i hj
    rw [node?_eq_none_iff.2 hj]
    split <;> rfl

theorem dependsOn_withPlaceholders (ids : List NodeId) (g : Graph) :
    (g.withPlaceholders ids).DependsOn = g.DependsOn := by
  funext a b
  rw [DependsOn, DependsOn, dependenciesOf_withPlaceholders]

theorem WellFormed.withPlaceholders (h : g.WellFormed) (ids : List NodeId) :
    (g.withPlaceholders ids).WellFormed where
  ids_nodup := nodup_ids_withPlaceholders ids h.ids_nodup
  dependencies_sorted a := by
    rw [dependenciesOf_withPlaceholders]
    exact h.dependencies_sorted a
  dependents_sorted a := by
    rw [dependentsOf_withPlaceholders]
    exact h.dependents_sorted a
  mirrored a b := by
    rw [dependenciesOf_withPlaceholders, dependentsOf_withPlaceholders]
    exact h.mirrored a b
  params_subset a := by
    rw [dependenciesOf_withPlaceholders, paramsOf_withPlaceholders]
    exact h.params_subset a
  acyclic a := by
    rw [dependsOn_withPlaceholders]
    exact h.acyclic a

/-! ## One more edge -/

/-- The test of `Graph.addDependency` is exact: what it lets pass does not lead back. -/
theorem WellFormed.not_reaches (h : g.WellFormed) {id d : NodeId} (hne : id ≠ d)
    (hd : d ∉ g.affected [id]) : ¬ ReflTransGen g.DependsOn d id := by
  intro hdid
  rcases ReflTransGen.cases_tail_iff _ _ _ |>.1 hdid with heq | ⟨y, -, hy⟩
  · exact hne heq
  · exact hd (h.mem_affected_iff.2
      ⟨id, List.mem_singleton_self id, (h.mem_ids_of_dependsOn hy).2, hdid⟩)

/-- The graph with one more edge between two of its nodes. -/
def withEdge (g : Graph) (id d : NodeId) : Graph :=
  (g.update id (Node.addDependency d)).addDependent id [d]

theorem ids_withEdge (g : Graph) (id d : NodeId) : (g.withEdge id d).ids = g.ids := by
  rw [withEdge, addDependent, ids_foldl_update, ids_update]

theorem core_withEdge (g : Graph) (id d j : NodeId) :
    ((g.withEdge id d).node? j).map Node.core
      = if id = j then ((g.node? j).map (Node.addDependency d)).map Node.core
        else (g.node? j).map Node.core := by
  rw [withEdge, core_addDependent, node?_update]
  split <;> rfl

theorem dependenciesOf_withEdge {g : Graph} {id : NodeId} (hid : id ∈ g.ids) (d j : NodeId) :
    (g.withEdge id d).dependenciesOf j
      = if id = j then NodeId.insert d (g.dependenciesOf id) else g.dependenciesOf j := by
  obtain ⟨n, hn⟩ := mem_ids_iff.1 hid
  have hcore := core_withEdge g id d j
  split at hcore
  · rename_i hj
    subst hj
    rw [hn] at hcore
    rw [if_pos rfl, dependenciesOf_of_core hcore, dependenciesOf_eq hn]
    rfl
  · rename_i hj
    rw [if_neg hj]
    exact dependenciesOf_congr hcore

theorem paramsOf_withEdge (g : Graph) (id d j : NodeId) :
    (g.withEdge id d).paramsOf j = g.paramsOf j := by
  have hcore := core_withEdge g id d j
  have : ((g.withEdge id d).node? j).map Node.params = (g.node? j).map Node.params := by
    have := congrArg (Option.map Node.params) hcore
    rw [Option.map_map] at this
    refine this.trans ?_
    split <;> simp [Function.comp_def, Node.addDependency]
  rw [paramsOf, paramsOf, this]

theorem dependentsOf_withEdge {g : Graph} {d : NodeId} (hd : d ∈ g.ids) (id j : NodeId) :
    (g.withEdge id d).dependentsOf j
      = if j = d then NodeId.insert id (g.dependentsOf j) else g.dependentsOf j := by
  rw [withEdge, dependentsOf_addDependent id (List.nodup_singleton d) _ fun hj => ?_,
    dependentsOf_update g id j (f := Node.addDependency d) fun _ => rfl]
  · simp only [List.mem_singleton]
  · rw [ids_update, List.mem_singleton.1 hj]
    exact hd

/-- An edge that does not lead back keeps a graph well-formed. -/
theorem WellFormed.withEdge (h : g.WellFormed) {id d : NodeId} (hid : id ∈ g.ids)
    (hd : d ∈ g.ids) (hback : ¬ ReflTransGen g.DependsOn d id) : (g.withEdge id d).WellFormed where
  ids_nodup := by
    rw [ids_withEdge]
    exact h.ids_nodup
  dependencies_sorted a := by
    rw [dependenciesOf_withEdge hid]
    split
    · exact (h.dependencies_sorted id).insert
    · exact h.dependencies_sorted a
  dependents_sorted a := by
    rw [dependentsOf_withEdge hd]
    split
    · exact (h.dependents_sorted a).insert
    · exact h.dependents_sorted a
  mirrored a b := by
    rw [dependenciesOf_withEdge hid, dependentsOf_withEdge hd]
    by_cases ha : id = a <;> by_cases hb : b = d
    · subst ha hb
      simp [NodeId.mem_insert]
    · subst ha
      simp [NodeId.mem_insert, hb, h.mirrored]
    · subst hb
      simp [NodeId.mem_insert, ha, Ne.symm ha, h.mirrored]
    · simp [ha, hb, h.mirrored]
  params_subset a := by
    rw [dependenciesOf_withEdge hid, paramsOf_withEdge]
    split
    · rename_i ha
      subst ha
      exact fun p hp => NodeId.mem_insert.2 (Or.inr (h.params_subset id hp))
    · exact h.params_subset a
  acyclic := by
    refine acyclic_of_new_edges id [d] (fun x y hxy => ?_) h.acyclic
      fun t ht => List.mem_singleton.1 ht ▸ hback
    rw [DependsOn, dependenciesOf_withEdge hid] at hxy
    split at hxy
    · rename_i hx
      subst hx
      rcases NodeId.mem_insert.1 hxy with rfl | hxy
      · exact Or.inr ⟨rfl, List.mem_singleton_self y⟩
      · exact Or.inl hxy
    · exact Or.inl hxy

theorem addDependency_cases {id d : NodeId} {isNew : Bool}
    (hadd : g.addDependency id d = .ok (isNew, g')) :
    ∃ n, g.node? id = some n ∧ id ≠ d ∧ d ∉ g.affected [id] ∧
      ((isNew = false ∧ d ∈ n.dependencies ∧ g' = g.withPlaceholders [d]) ∨
        (isNew = true ∧ d ∉ n.dependencies ∧ g' = (g.withPlaceholders [d]).withEdge id d)) := by
  rw [addDependency] at hadd
  split at hadd
  · cases hadd
  · rename_i n hn
    split at hadd
    · cases hadd
    · rename_i hcycle
      rw [not_or] at hcycle
      refine ⟨n, hn, hcycle.1, hcycle.2, ?_⟩
      simp only at hadd
      split at hadd
      · rename_i hd
        cases hadd
        exact Or.inl ⟨rfl, hd, rfl⟩
      · rename_i hd
        cases hadd
        exact Or.inr ⟨rfl, hd, rfl⟩

theorem WellFormed.addDependency (h : g.WellFormed) {id d : NodeId} {isNew : Bool}
    (hadd : g.addDependency id d = .ok (isNew, g')) : g'.WellFormed := by
  obtain ⟨n, hn, hne, hd, ⟨-, -, rfl⟩ | ⟨-, -, rfl⟩⟩ := addDependency_cases hadd
  · exact h.withPlaceholders [d]
  · refine (h.withPlaceholders [d]).withEdge ?_ ?_ fun hback => h.not_reaches hne hd ?_
    · exact mem_ids_withPlaceholders.2 (Or.inl (mem_ids_iff.2 ⟨n, hn⟩))
    · exact mem_ids_withPlaceholders.2 (Or.inr (List.mem_singleton_self d))
    · rwa [dependsOn_withPlaceholders] at hback

/-! ## A node with new dependencies -/

/-- What a registration makes of the entry of its node. -/
def registered (params : List NodeId) (body : Body) : Option Node → Node
  | some n => n.redefine params body
  | none => .fresh params body

theorem dependencies_registered (params : List NodeId) (body : Body) (n : Option Node) :
    (registered params body n).dependencies = NodeId.set params := by
  cases n <;> rfl

theorem params_registered (params : List NodeId) (body : Body) (n : Option Node) :
    (registered params body n).params = params := by
  cases n <;> rfl

/-- The test of `Graph.register` is exact: parameters that it lets pass do not depend on the
node. -/
theorem WellFormed.not_reaches_of_closing? (h : g.WellFormed) {id : NodeId}
    {params : List NodeId} (hclosing : g.closing? id params = none) :
    ∀ p ∈ params, p ≠ id ∧ ¬ ReflTransGen g.DependsOn p id := by
  rw [closing?] at hclosing
  split at hclosing
  · cases hclosing
  · rename_i hid
    intro p hp
    have hne : p ≠ id := fun heq => hid (heq ▸ hp)
    refine ⟨hne, fun hpid => ?_⟩
    rcases ReflTransGen.cases_tail_iff _ _ _ |>.1 hpid with heq | ⟨y, -, hy⟩
    · exact hne heq.symm
    · have hmem : id ∈ g.ids := (h.mem_ids_of_dependsOn hy).2
      rw [if_pos (contains_iff.2 hmem), List.find?_eq_none] at hclosing
      refine hclosing p hp (List.contains_iff_mem.2 (h.mem_affected_iff.2 ?_))
      exact ⟨id, List.mem_singleton_self id, hmem, hpid⟩

/-- Parameters that do not depend on the node pass the test. -/
theorem WellFormed.closing?_eq_none (h : g.WellFormed) {id : NodeId} {params : List NodeId}
    (hparams : ∀ p ∈ params, p ≠ id ∧ ¬ ReflTransGen g.DependsOn p id) :
    g.closing? id params = none := by
  rw [closing?, if_neg fun hid => (hparams id hid).1 rfl]
  split
  · refine List.find?_eq_none.2 fun p hp hmem => (hparams p hp).2 ?_
    obtain ⟨c, hc, -, hpc⟩ := h.mem_affected_iff.1 (List.contains_iff_mem.1 hmem)
    rwa [List.mem_singleton.1 hc] at hpc
  · rfl

/-- A registration is refused for a cycle only. -/
theorem exists_register_of_closing? {id : NodeId} {dependencies : List NodeId}
    (h : g.closing? id (NodeId.distinct dependencies) = none) (body : Body) :
    ∃ g', g.register id dependencies body = .ok g' := by
  rw [register]
  simp only [h]
  exact ⟨_, rfl⟩

/-- What a registration that is not refused does: placeholders for unknown parameters, the entry
of the node, and the edges to it at their other ends. -/
theorem register_cases {id : NodeId} {dependencies : List NodeId} {body : Body}
    (hreg : g.register id dependencies body = .ok g') :
    g.closing? id (NodeId.distinct dependencies) = none ∧
      let params := NodeId.distinct dependencies
      let g₁ := g.withPlaceholders params
      ((∃ n, g₁.node? id = some n ∧
          g' = ((g₁.update id (Node.redefine params body)).dropDependent id
            (n.dependencies.filter fun d => !params.contains d)).addDependent id params) ∨
        (g₁.node? id = none ∧
          g' = ({ g₁ with nodes := Table.put id (.fresh params body) g₁.nodes } : Graph).addDependent
            id params)) := by
  rw [register] at hreg
  simp only at hreg ⊢
  split at hreg
  · cases hreg
  · rename_i hclosing
    refine ⟨hclosing, ?_⟩
    split at hreg
    · rename_i n hn
      cases hreg
      exact Or.inl ⟨n, hn, rfl⟩
    · rename_i hn
      cases hreg
      exact Or.inr ⟨hn, rfl⟩

section Register

variable {id : NodeId} {dependencies : List NodeId} {body : Body}

theorem not_mem_of_register (hreg : g.register id dependencies body = .ok g') :
    id ∉ NodeId.distinct dependencies := by
  intro hmem
  have := (register_cases hreg).1
  rw [closing?, if_pos hmem] at this
  cases this

theorem node?_withPlaceholders_of_register (hreg : g.register id dependencies body = .ok g') :
    (g.withPlaceholders (NodeId.distinct dependencies)).node? id = g.node? id := by
  rw [node?_withPlaceholders, if_neg (not_mem_of_register hreg)]
  split
  · rfl
  · rename_i hid
    rw [node?_eq_none_iff.2 hid]

/-- **What a registration leaves of every node**, up to its dependents. -/
theorem core_register (hreg : g.register id dependencies body = .ok g') (j : NodeId) :
    (g'.node? j).map Node.core
      = if j = id then some (registered (NodeId.distinct dependencies) body (g.node? id)).core
        else if j ∈ g.ids then (g.node? j).map Node.core
        else if j ∈ dependencies then some Node.placeholder.core
        else none := by
  have hnode := node?_withPlaceholders_of_register hreg
  obtain ⟨-, ⟨n, hn, rfl⟩ | ⟨hn, rfl⟩⟩ := register_cases hreg
  · rw [core_addDependent, core_dropDependent, node?_update, ← hnode]
    by_cases hj : j = id
    · subst hj
      simp [hn, registered]
    · rw [if_neg (Ne.symm hj), node?_withPlaceholders, if_neg hj]
      by_cases hmem : j ∈ g.ids
      · simp [hmem]
      · by_cases hd : j ∈ dependencies <;> simp [hmem, hd]
  · rw [core_addDependent, node?_put, ← hnode]
    by_cases hj : j = id
    · subst hj
      simp [hn, registered]
    · rw [if_neg (Ne.symm hj), node?_withPlaceholders, if_neg hj]
      by_cases hmem : j ∈ g.ids
      · simp [hmem]
      · by_cases hd : j ∈ dependencies <;> simp [hmem, hd]

theorem mem_ids_register (hreg : g.register id dependencies body = .ok g') {j : NodeId} :
    j ∈ g'.ids ↔ j = id ∨ j ∈ g.ids ∨ j ∈ dependencies := by
  have hcore := core_register hreg j
  have hsome : j ∈ g'.ids ↔ ((g'.node? j).map Node.core).isSome = true := by
    rw [Option.isSome_map, Option.isSome_iff_exists, mem_ids_iff]
  rw [hsome, hcore]
  by_cases hj : j = id
  · simp [hj]
  · by_cases hmem : j ∈ g.ids
    · obtain ⟨n, hn⟩ := mem_ids_iff.1 hmem
      simp [hj, hmem, hn]
    · by_cases hd : j ∈ dependencies <;> simp [hj, hmem, hd]

theorem dependenciesOf_register (hreg : g.register id dependencies body = .ok g') (j : NodeId) :
    g'.dependenciesOf j
      = if j = id then NodeId.set (NodeId.distinct dependencies) else g.dependenciesOf j := by
  have hcore := core_register hreg j
  split at hcore
  · rename_i hj
    rw [if_pos hj, dependenciesOf_of_core hcore, dependencies_registered]
  · rename_i hj
    rw [if_neg hj]
    split at hcore
    · exact dependenciesOf_congr hcore
    · rename_i hmem
      rw [show g.dependenciesOf j = [] by simp [dependenciesOf, node?_eq_none_iff.2 hmem]]
      split at hcore
      · exact dependenciesOf_of_core hcore
      · rw [dependenciesOf, Option.map_eq_none_iff.1 hcore]
        rfl

theorem paramsOf_register (hreg : g.register id dependencies body = .ok g') (j : NodeId) :
    g'.paramsOf j = if j = id then NodeId.distinct dependencies else g.paramsOf j := by
  have hcore := core_register hreg j
  split at hcore
  · rename_i hj
    rw [if_pos hj, paramsOf_of_core hcore, params_registered]
  · rename_i hj
    rw [if_neg hj]
    split at hcore
    · exact paramsOf_congr hcore
    · rename_i hmem
      rw [show g.paramsOf j = [] by simp [paramsOf, node?_eq_none_iff.2 hmem]]
      split at hcore
      · exact paramsOf_of_core hcore
      · rw [paramsOf, Option.map_eq_none_iff.1 hcore]
        rfl

theorem nodup_ids_register (h : g.WellFormed) (hreg : g.register id dependencies body = .ok g') :
    g'.ids.Nodup := by
  have hplaced := (h.withPlaceholders (NodeId.distinct dependencies)).ids_nodup
  obtain ⟨-, ⟨n, -, rfl⟩ | ⟨-, rfl⟩⟩ := register_cases hreg
  · rw [addDependent, ids_foldl_update, dropDependent, ids_foldl_update, ids_update]
    exact hplaced
  · rw [addDependent, ids_foldl_update]
    exact Table.nodup_keys_put hplaced id _

/-- The dependents after a registration: those edges to its node that its parameters ask for, and
all others as before. -/
theorem dependentsOf_register (h : g.WellFormed)
    (hreg : g.register id dependencies body = .ok g') (j : NodeId) :
    NodeId.Sorted (g'.dependentsOf j) ∧
      ∀ a, a ∈ g'.dependentsOf j ↔ if a = id then j ∈ dependencies else a ∈ g.dependentsOf j := by
  have hnodup := NodeId.nodup_distinct dependencies
  have hplaced := h.withPlaceholders (NodeId.distinct dependencies)
  have hsorted := hplaced.dependents_sorted j
  have hmirrored := hplaced.mirrored id j
  have hold := dependentsOf_withPlaceholders (NodeId.distinct dependencies) g j
  have hknown : ∀ k, k ∈ NodeId.distinct dependencies →
      k ∈ (g.withPlaceholders (NodeId.distinct dependencies)).ids := fun k hk =>
    mem_ids_withPlaceholders.2 (Or.inr hk)
  obtain ⟨-, ⟨n, hn, rfl⟩ | ⟨hn, rfl⟩⟩ := register_cases hreg
  · have hdrop : (n.dependencies.filter
        fun d => !(NodeId.distinct dependencies).contains d).Nodup := by
      rw [← dependenciesOf_eq hn]
      exact (hplaced.dependencies_sorted id).nodup.filter _
    rw [dependenciesOf_eq hn] at hmirrored
    rw [dependentsOf_addDependent id hnodup _ fun hj => by
        rw [dropDependent, ids_foldl_update, ids_update]
        exact hknown j hj,
      dependentsOf_dropDependent id hdrop,
      dependentsOf_update _ id j (f := Node.redefine (NodeId.distinct dependencies) body)
        fun _ => rfl]
    generalize (g.withPlaceholders (NodeId.distinct dependencies)).dependentsOf j = ds at *
    rw [← hold]
    simp only [NodeId.mem_distinct, List.mem_filter, List.contains_eq_mem, Bool.not_eq_true',
      decide_eq_false_iff_not]
    by_cases hj : j ∈ dependencies
    · simp only [hj, not_true_eq_false, and_false, if_true, if_false]
      refine ⟨hsorted.insert, fun a => ?_⟩
      rw [NodeId.mem_insert]
      by_cases ha : a = id <;> simp [ha]
    · by_cases hold : j ∈ n.dependencies
      · simp only [hj, hold, not_false_eq_true, and_self, if_true, if_false]
        refine ⟨hsorted.erase, fun a => ?_⟩
        rw [hsorted.nodup.mem_erase_iff]
        by_cases ha : a = id <;> simp [ha]
      · have hid : id ∉ ds := fun hid => hold (hmirrored.2 hid)
        simp only [hj, hold, not_false_eq_true, and_true, if_false]
        refine ⟨hsorted, fun a => ?_⟩
        by_cases ha : a = id
        · simp [ha, hid]
        · simp [ha]
  · have hid : id ∉ g.dependentsOf j := by
      rw [← hold]
      intro hid
      exact node?_eq_none_iff.1 hn (mem_ids_of_mem_dependenciesOf (hmirrored.2 hid))
    have hput : ({ g.withPlaceholders (NodeId.distinct dependencies) with
        nodes := Table.put id (.fresh (NodeId.distinct dependencies) body)
          (g.withPlaceholders (NodeId.distinct dependencies)).nodes } : Graph).dependentsOf j
          = g.dependentsOf j := by
      rw [← hold, dependentsOf, node?_put, dependentsOf]
      split
      · rename_i hj
        rw [← hj, hn]
        rfl
      · rfl
    rw [dependentsOf_addDependent id hnodup _ fun hj => by
        exact Table.mem_keys_put.2 (Or.inr (hknown j hj)),
      hput]
    rw [hold] at hsorted
    by_cases hj : j ∈ dependencies
    · simp only [NodeId.mem_distinct, hj, if_true]
      refine ⟨hsorted.insert, fun a => ?_⟩
      rw [NodeId.mem_insert]
      by_cases ha : a = id <;> simp [ha]
    · simp only [NodeId.mem_distinct, hj, if_false]
      refine ⟨hsorted, fun a => ?_⟩
      by_cases ha : a = id
      · simp [ha, hid]
      · simp [ha]

/-- **Registering a node keeps a graph well-formed.** -/
theorem WellFormed.register (h : g.WellFormed)
    (hreg : g.register id dependencies body = .ok g') : g'.WellFormed where
  ids_nodup := nodup_ids_register h hreg
  dependencies_sorted a := by
    rw [dependenciesOf_register hreg]
    split
    · exact NodeId.sorted_set _
    · exact h.dependencies_sorted a
  dependents_sorted a := (dependentsOf_register h hreg a).1
  mirrored a b := by
    rw [dependenciesOf_register hreg, (dependentsOf_register h hreg b).2]
    by_cases ha : a = id
    · simp [ha]
    · simp [ha, h.mirrored]
  params_subset a := by
    rw [dependenciesOf_register hreg, paramsOf_register hreg]
    split
    · exact fun p hp => NodeId.mem_set.2 hp
    · exact h.params_subset a
  acyclic := by
    -- The edges that the node had and has no more can only help.
    refine acyclic_of_new_edges id (NodeId.distinct dependencies) (fun x y hxy => ?_) h.acyclic
      fun t ht => (h.not_reaches_of_closing? (register_cases hreg).1 t ht).2
    rw [DependsOn, dependenciesOf_register hreg] at hxy
    split at hxy
    · rename_i hx
      exact Or.inr ⟨hx, NodeId.mem_set.1 hxy⟩
    · exact Or.inl hxy

end Register

end Graph

end ReactiveScript

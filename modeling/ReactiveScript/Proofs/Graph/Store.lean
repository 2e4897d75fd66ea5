import ReactiveScript.Proofs.Graph.GlitchFree

/-!
# What a graph stores

Beside its nodes a graph stores the values that they produced and who produced which unit.  Only a
completed run changes that, so everything that is stored belongs to a registered node.  Together with
well-formedness this is the invariant of graphs.

* `Graph.SameStore` — operations on nodes and edges leave the stored things alone.
* `Graph.StoresOwn` — what is stored belongs to registered nodes.
* `Graph.reachable_graph_is_ordered` — the invariant of all graphs that can be built, and what it
  makes of the order of execution.
-/

set_option autoImplicit false

namespace ReactiveScript

namespace Graph

open Relation

variable {g g' : Graph}

/-- Everything but the nodes is the same. -/
structure SameStore (g g' : Graph) : Prop where
  /-- The values. -/
  values_eq : g'.values = g.values
  /-- The producers. -/
  producers_eq : g'.producers = g.producers
  /-- The retry policy. -/
  defaultRetry_eq : g'.defaultRetry = g.defaultRetry
  /-- The time limit. -/
  nodeTimeout_eq : g'.nodeTimeout = g.nodeTimeout

namespace SameStore

theorem refl (g : Graph) : g.SameStore g := ⟨rfl, rfl, rfl, rfl⟩

theorem trans {g'' : Graph} (h : g.SameStore g') (h' : g'.SameStore g'') : g.SameStore g'' :=
  ⟨h'.values_eq.trans h.values_eq, h'.producers_eq.trans h.producers_eq,
    h'.defaultRetry_eq.trans h.defaultRetry_eq, h'.nodeTimeout_eq.trans h.nodeTimeout_eq⟩

theorem withPlaceholders (ids : List NodeId) (g : Graph) :
    g.SameStore (g.withPlaceholders ids) := by
  induction ids generalizing g with
  | nil => exact refl g
  | cons id ids ih =>
    rw [Graph.withPlaceholders]
    split
    · exact ih g
    · have hstep : g.SameStore { g with nodes := Table.put id .placeholder g.nodes } :=
        ⟨rfl, rfl, rfl, rfl⟩
      exact hstep.trans (ih _)

theorem update (g : Graph) (id : NodeId) (f : Node → Node) : g.SameStore (g.update id f) :=
  ⟨rfl, rfl, rfl, rfl⟩

theorem foldl_update (f : Node → Node) (ids : List NodeId) (g : Graph) :
    g.SameStore (ids.foldl (fun g id => g.update id f) g) := by
  induction ids generalizing g with
  | nil => exact refl g
  | cons id ids ih => exact (update g id f).trans (ih _)

theorem addDependency {id d : NodeId} {isNew : Bool}
    (hadd : g.addDependency id d = .ok (isNew, g')) : g.SameStore g' := by
  have hplaced := withPlaceholders [d] g
  obtain ⟨n, -, -, -, ⟨-, -, rfl⟩ | ⟨-, -, rfl⟩⟩ := addDependency_cases hadd
  · exact hplaced
  · exact hplaced.trans ((update _ _ _).trans (foldl_update _ _ _))

theorem setRetry {id : NodeId} {policy : Option RetryPolicy}
    (hset : g.setRetry id policy = .ok g') : g.SameStore g' := by
  rw [Graph.setRetry] at hset
  split at hset
  · cases hset
    exact update g id _
  · cases hset

theorem register {id : NodeId} {dependencies : List NodeId} {body : Body}
    (hreg : g.register id dependencies body = .ok g') : g.SameStore g' := by
  have hplaced := withPlaceholders (NodeId.distinct dependencies) g
  obtain ⟨-, ⟨n, -, rfl⟩ | ⟨-, rfl⟩⟩ := register_cases hreg
  · exact hplaced.trans ((update _ _ _).trans ((foldl_update _ _ _).trans (foldl_update _ _ _)))
  · refine hplaced.trans (trans ?_ (foldl_update _ _ _))
    exact ⟨rfl, rfl, rfl, rfl⟩

end SameStore

/-! ## What is stored belongs to nodes -/

/-- Values and units are those of registered nodes. -/
structure StoresOwn (g : Graph) : Prop where
  /-- Values are those of nodes. -/
  value : ∀ id v, g.value? id = some v → id ∈ g.ids
  /-- Units are those of nodes. -/
  producer : ∀ unit id, g.producer? unit = some id → id ∈ g.ids

theorem storesOwn_empty (retry : Option RetryPolicy) (timeout : Option Period) :
    (empty retry timeout).StoresOwn :=
  ⟨fun _ _ h => (by cases h), fun _ _ h => (by cases h)⟩

namespace StoresOwn

theorem of_sameStore (h : g.StoresOwn) (hstore : g.SameStore g') (hids : g.ids ⊆ g'.ids) :
    g'.StoresOwn := by
  refine ⟨fun id v hv => hids (h.value id v ?_), fun unit id hid => hids (h.producer unit id ?_)⟩
  · rwa [value?, hstore.values_eq] at hv
  · rwa [producer?, hstore.producers_eq] at hid

theorem register {id : NodeId} {dependencies : List NodeId} {body : Body} (h : g.StoresOwn)
    (hreg : g.register id dependencies body = .ok g') : g'.StoresOwn :=
  h.of_sameStore (.register hreg) fun _ hj => (mem_ids_register hreg).2 (Or.inr (Or.inl hj))

theorem addDependency {id d : NodeId} {isNew : Bool} (h : g.StoresOwn)
    (hadd : g.addDependency id d = .ok (isNew, g')) : g'.StoresOwn := by
  refine h.of_sameStore (.addDependency hadd) fun j hj => ?_
  have hplaced : j ∈ (g.withPlaceholders [d]).ids := mem_ids_withPlaceholders.2 (Or.inl hj)
  obtain ⟨n, -, -, -, ⟨-, -, rfl⟩ | ⟨-, -, rfl⟩⟩ := addDependency_cases hadd
  · exact hplaced
  · rwa [ids_withEdge]

theorem setRetry {id : NodeId} {policy : Option RetryPolicy} (h : g.StoresOwn)
    (hset : g.setRetry id policy = .ok g') : g'.StoresOwn := by
  refine h.of_sameStore (.setRetry hset) fun j hj => ?_
  rw [Graph.setRetry] at hset
  split at hset
  · cases hset
    rwa [ids_update]
  · cases hset

theorem update (h : g.StoresOwn) (id : NodeId) (f : Node → Node) : (g.update id f).StoresOwn :=
  h.of_sameStore (.update g id f) fun _ hj => by rwa [ids_update]

theorem force (h : g.StoresOwn) (ids : List NodeId) : (g.force ids).StoresOwn :=
  h.of_sameStore (.foldl_update _ ids g) fun _ hj => by rwa [Graph.force, ids_foldl_update]

/-- A completed run stores things for its own node. -/
theorem complete (h : g.StoresOwn) {id : NodeId} (hid : id ∈ g.ids) (v : Value) (f : Footprint) :
    (g.complete id v f).StoresOwn := by
  have hkeeps := keeps_complete g id v f
  refine ⟨fun j w hw => ?_, fun unit j hj => ?_⟩
  · rw [hkeeps.ids_eq]
    by_cases hne : j = id
    · rwa [hne]
    · rw [hkeeps.value?_eq j hne] at hw
      exact h.value j w hw
  · rw [hkeeps.ids_eq]
    have hput : ∀ (units : List OutputUnit) (ps : Table UnitId NodeId),
        (∀ u k, Table.get? u ps = some k → k ∈ g.ids) → ∀ u k,
        Table.get? u (units.foldl (fun ps u => Table.put u.id id ps) ps) = some k → k ∈ g.ids := by
      intro units
      induction units with
      | nil => exact fun ps hps => hps
      | cons unit units ih =>
        refine fun ps hps => ih _ fun u k hk => ?_
        rw [Table.get?_put] at hk
        split at hk
        · cases hk
          exact hid
        · exact hps u k hk
    rw [producer?, producers_complete] at hj
    exact hput _ _ h.producer unit j hj

theorem turn {recompute : Option (List NodeId)} {inputs : InputTable} {id : NodeId} {r : Report}
    {calls : List Call} {o : Option Report} (h : g.StoresOwn)
    (hturn : Turn g recompute inputs id r calls o g') : g'.StoresOwn := by
  cases hturn with
  | skipped _ => exact h
  | blocked _ _ _ => exact h.update id _
  | ran hn _ _ _ _ hattempted =>
    cases hattempted with
    | completed _ _ _ _ _ =>
      refine (h.update id _).complete ?_ _ _
      rw [ids_update]
      exact mem_ids_iff.2 ⟨_, hn⟩
    | failed _ _ _ _ _ _ => exact h.update id _
    | crashed _ _ => exact h.update id _

theorem visitAll (h : g.StoresOwn) (recompute : Option (List NodeId)) (inputs : InputTable)
    (ids : List NodeId) (r : Report) :
    (Graph.visitAll recompute inputs ids g r).2.StoresOwn := by
  induction ids generalizing g r with
  | nil => exact h
  | cons id ids ih =>
    have hnext := h.turn (visit_turn g recompute inputs id r)
    rw [Graph.visitAll]
    split
    · rename_i hvisit
      rwa [hvisit] at hnext
    · rename_i hvisit
      rw [hvisit] at hnext
      exact ih hnext _

end StoresOwn

theorem Reachable.storesOwn (h : Reachable g) : g.StoresOwn := by
  induction h with
  | empty retry timeout => exact storesOwn_empty retry timeout
  | register _ hreg ih => exact ih.register hreg
  | addDependency _ hadd ih => exact ih.addDependency hadd
  | setRetry _ hset ih => exact ih.setRetry hset
  | force ids _ ih => exact ih.force ids
  | execute recompute inputs _ ih => exact ih.visitAll recompute inputs _ _
  | @reset g _ _ => exact storesOwn_empty g.defaultRetry g.nodeTimeout

/-! ## The invariant -/

theorem WellFormed.order_perm_ids (h : g.WellFormed) : g.order.Perm g.ids :=
  (List.perm_ext_iff_of_nodup h.nodup_order h.ids_nodup).2 fun _ => h.mem_order_iff

/-- **Whatever is done to a graph, its edges are known at both ends, lead to registered nodes and
form no cycle; what it stores belongs to registered nodes; and its order lists every node once,
behind what it depends on.** -/
theorem reachable_graph_is_ordered (h : Reachable g) :
    (∀ a b, b ∈ g.dependenciesOf a ↔ a ∈ g.dependentsOf b) ∧
      (∀ a b, b ∈ g.dependenciesOf a → g.contains b = true) ∧
      (∀ a, g.paramsOf a ⊆ g.dependenciesOf a) ∧
      (∀ a, ¬ TransGen g.DependsOn a a) ∧
      (∀ id v, g.value? id = some v → g.contains id = true) ∧
      (∀ unit id, g.producer? unit = some id → g.contains id = true) ∧
      g.order.Nodup ∧ g.order.Perm g.ids ∧
      ∀ before id after, g.order = before ++ id :: after → g.dependenciesOf id ⊆ before := by
  have hwell := h.wellFormed
  have hstores := h.storesOwn
  refine ⟨hwell.mirrored, fun a b hab => ?_, hwell.params_subset, hwell.acyclic, fun id v hv => ?_,
    fun unit id hid => ?_, hwell.nodup_order, hwell.order_perm_ids, fun before id after horder => ?_⟩
  · exact contains_iff.2 (hwell.mem_ids_of_dependsOn hab).2
  · exact contains_iff.2 (hstores.value id v hv)
  · exact contains_iff.2 (hstores.producer unit id hid)
  · have hlists := hwell.lists_order
    rw [horder] at hlists
    exact (hlists.split before).dependencies_subset

/-- The theorem applies to a graph in which a node has been seen to read another one, which came as
a placeholder. -/
theorem reachable_graph_is_ordered_of_reading :
    ∃ g : Graph, Reachable g ∧ g.DependsOn ⟨"b"⟩ ⟨"c"⟩ ∧ g.contains ⟨"c"⟩ = true ∧
      g.order.Perm g.ids := by
  have hbuilt : ((empty none none).registerAll
      [(⟨"a"⟩, [⟨"c"⟩], .constant .null), (⟨"b"⟩, [], .reading ⟨"c"⟩)]).toOption.any
      (fun g => decide (⟨"c"⟩ ∈ (g.execute none []).2.dependenciesOf ⟨"b"⟩)) = true := by cbv
  cases hreg : (empty none none).registerAll
      [(⟨"a"⟩, [⟨"c"⟩], .constant .null), (⟨"b"⟩, [], .reading ⟨"c"⟩)] with
  | error e => simp [hreg, Except.toOption] at hbuilt
  | ok g =>
    simp only [hreg, Except.toOption, Option.any_some, decide_eq_true_eq] at hbuilt
    have hg : Reachable (g.execute none []).2 :=
      (Reachable.registerAll (.empty none none) hreg).execute none []
    obtain ⟨-, hregistered, -, -, -, -, -, hperm, -⟩ := reachable_graph_is_ordered hg
    exact ⟨_, hg, hbuilt, hregistered _ _ hbuilt, hperm⟩

end Graph

end ReactiveScript

import ReactiveScript.Proofs.Graph.Listing
import ReactiveScript.Proofs.Graph.Turn

/-!
# Walks over a graph

A walk gives every node its turn, and a turn touches nothing but its node.  So what a node finds at
its turn is what nodes before it have left, and stays so until the walk ends.

* `Graph.Reachable` — the graphs that can be built.  They are all well-formed.
* `Graph.visitAll_keeps` — a walk does not touch nodes that have no turn in it.
* `Graph.executeCalls` — all calls of a walk; each belongs to the turn of its node.
-/

set_option autoImplicit false

namespace ReactiveScript

namespace Graph

variable {g g' : Graph} {recompute : Option (List NodeId)} {inputs : InputTable}

/-! ## Reachable graphs -/

theorem WellFormed.setRetry (h : g.WellFormed) {id : NodeId} {policy : Option RetryPolicy}
    (hset : g.setRetry id policy = .ok g') : g'.WellFormed := by
  rw [Graph.setRetry] at hset
  split at hset
  · cases hset
    exact h.update id (fun _ => rfl) (fun _ => rfl) fun _ => rfl
  · cases hset

theorem WellFormed.force (h : g.WellFormed) (ids : List NodeId) : (g.force ids).WellFormed := by
  induction ids generalizing g with
  | nil => exact h
  | cons id ids ih => exact ih (h.update id (fun _ => rfl) (fun _ => rfl) fun _ => rfl)

theorem wellFormed_visitAll (recompute : Option (List NodeId)) (inputs : InputTable)
    (ids : List NodeId) (h : g.WellFormed) (r : Report) :
    (visitAll recompute inputs ids g r).2.WellFormed := by
  induction ids generalizing g r with
  | nil => exact h
  | cons id ids ih =>
    have hnext := (g.keeps_visit recompute inputs id r).wellFormed h
    rw [visitAll]
    split
    · rename_i hvisit
      rwa [hvisit] at hnext
    · rename_i hvisit
      rw [hvisit] at hnext
      exact ih hnext _

/-- The graphs that can be built. -/
inductive Reachable : Graph → Prop
  /-- There are no nodes in the beginning. -/
  | empty (retry : Option RetryPolicy) (timeout : Option Period) : Reachable (empty retry timeout)
  /-- A node is registered or redefined. -/
  | register {g g' : Graph} {id : NodeId} {dependencies : List NodeId} {body : Body} :
      Reachable g → g.register id dependencies body = .ok g' → Reachable g'
  /-- A node gets a further dependency. -/
  | addDependency {g g' : Graph} {id dependency : NodeId} {isNew : Bool} :
      Reachable g → g.addDependency id dependency = .ok (isNew, g') → Reachable g'
  /-- A node gets a retry policy. -/
  | setRetry {g g' : Graph} {id : NodeId} {policy : Option RetryPolicy} :
      Reachable g → g.setRetry id policy = .ok g' → Reachable g'
  /-- Nodes are forced. -/
  | force {g : Graph} (ids : List NodeId) : Reachable g → Reachable (g.force ids)
  /-- Nodes run, whether or not that comes to its end. -/
  | execute {g : Graph} (recompute : Option (List NodeId)) (inputs : InputTable) :
      Reachable g → Reachable (g.execute recompute inputs).2
  /-- Everything is dropped. -/
  | reset {g : Graph} : Reachable g → Reachable g.reset

theorem Reachable.wellFormed (h : Reachable g) : g.WellFormed := by
  induction h with
  | empty retry timeout => exact wellFormed_empty retry timeout
  | register _ hreg ih => exact ih.register hreg
  | addDependency _ hadd ih => exact ih.addDependency hadd
  | setRetry _ hset ih => exact ih.setRetry hset
  | force ids _ ih => exact ih.force ids
  | execute recompute inputs _ ih => exact wellFormed_visitAll recompute inputs _ ih _
  | @reset g _ _ => exact wellFormed_empty g.defaultRetry g.nodeTimeout

/-- Register several nodes, one after another. -/
def registerAll (g : Graph) : List (NodeId × List NodeId × Body) → Except GraphError Graph
  | [] => .ok g
  | (id, dependencies, body) :: nodes =>
    match g.register id dependencies body with
    | .error e => .error e
    | .ok g => g.registerAll nodes

theorem Reachable.registerAll {nodes : List (NodeId × List NodeId × Body)} (h : Reachable g)
    (hreg : g.registerAll nodes = .ok g') : Reachable g' := by
  induction nodes generalizing g with
  | nil =>
    cases hreg
    exact h
  | cons node nodes ih =>
    rw [Graph.registerAll] at hreg
    split at hreg
    · cases hreg
    · exact ih (h.register ‹_›) hreg

/-! ## What a walk does not touch -/

theorem visitAll_cons {ids : List NodeId} {id : NodeId} {r r' : Report}
    (h : visitAll recompute inputs (id :: ids) g r = (some r', g')) :
    ∃ r₁ g₁, g.visit recompute inputs id r = (some r₁, g₁) ∧
      visitAll recompute inputs ids g₁ r₁ = (some r', g') := by
  rw [visitAll] at h
  split at h
  · cases h
  · exact ⟨_, _, ‹_›, h⟩

theorem visitAll_append {ids ids' : List NodeId} {r r' : Report}
    (h : visitAll recompute inputs (ids ++ ids') g r = (some r', g')) :
    ∃ r₁ g₁, visitAll recompute inputs ids g r = (some r₁, g₁) ∧
      visitAll recompute inputs ids' g₁ r₁ = (some r', g') := by
  induction ids generalizing g r with
  | nil => exact ⟨r, g, rfl, h⟩
  | cons id ids ih =>
    obtain ⟨r₁, g₁, hvisit, hrest⟩ := visitAll_cons h
    obtain ⟨r₂, g₂, hids, hids'⟩ := ih hrest
    refine ⟨r₂, g₂, ?_, hids'⟩
    rw [visitAll, hvisit]
    exact hids

/-- Nodes that have no turn keep everything but their dependents, and keep their values. -/
theorem visitAll_keeps (recompute : Option (List NodeId)) (inputs : InputTable)
    {ids : List NodeId} {j : NodeId} (hj : j ∉ ids) (g : Graph) (r : Report) :
    ((visitAll recompute inputs ids g r).2.node? j).map Node.core = (g.node? j).map Node.core ∧
      (visitAll recompute inputs ids g r).2.value? j = g.value? j := by
  induction ids generalizing g r with
  | nil => exact ⟨rfl, rfl⟩
  | cons id ids ih =>
    obtain ⟨hne, hj⟩ := not_or.1 (mt List.mem_cons.2 hj)
    have hkeeps := g.keeps_visit recompute inputs id r
    have hstep := And.intro (hkeeps.core_eq j hne) (hkeeps.value?_eq j hne)
    rw [visitAll]
    split
    · rename_i hvisit
      rwa [hvisit] at hstep
    · rename_i r₁ g₁ hvisit
      rw [hvisit] at hstep
      exact ⟨(ih hj g₁ r₁).1.trans hstep.1, (ih hj g₁ r₁).2.trans hstep.2⟩

theorem hasFailed_congr {j : NodeId}
    (h : (g'.node? j).map Node.core = (g.node? j).map Node.core) :
    g'.hasFailed j = g.hasFailed j := by
  have hstatus := congrArg (Option.map Node.status) h
  rw [Option.map_map, Option.map_map] at hstatus
  have : (g'.node? j).map Node.status = (g.node? j).map Node.status := hstatus
  rw [hasFailed, hasFailed]
  cases hn : g.node? j <;> cases hn' : g'.node? j <;> rw [hn, hn'] at this <;> simp_all

/-! ## What a walk may do to the shape -/

/-- The same nodes at a later time: they do what they did, and depend on no more than they did and
what they have read. -/
structure Later (g g' : Graph) : Prop where
  /-- No node comes or goes. -/
  ids_eq : g'.ids = g.ids
  /-- Nodes do what they did. -/
  node? : ∀ id n, g.node? id = some n →
    ∃ n', g'.node? id = some n' ∧ n'.body = n.body ∧ n'.params = n.params ∧ n'.retry = n.retry
  /-- No dependency is lost. -/
  dependsOn : ∀ a b, g.DependsOn a b → g'.DependsOn a b
  /-- A new dependency has been read. -/
  exists_read : ∀ a b, g'.DependsOn a b → g.DependsOn a b ∨ ∃ n v, g.node? a = some n ∧
    v.node = a ∧ v.limit = g.nodeTimeout ∧ b ∈ (n.body v).footprint.reads
  /-- The settings stay. -/
  defaultRetry_eq : g'.defaultRetry = g.defaultRetry
  /-- The settings stay. -/
  nodeTimeout_eq : g'.nodeTimeout = g.nodeTimeout

namespace Later

theorem refl (g : Graph) : g.Later g where
  ids_eq := rfl
  node? _ n hn := ⟨n, hn, rfl, rfl, rfl⟩
  dependsOn _ _ h := h
  exists_read _ _ h := Or.inl h
  defaultRetry_eq := rfl
  nodeTimeout_eq := rfl

theorem trans {g'' : Graph} (h : g.Later g') (h' : g'.Later g'') : g.Later g'' where
  ids_eq := h'.ids_eq.trans h.ids_eq
  node? id n hn := by
    obtain ⟨n', hn', hbody, hparams, hretry⟩ := h.node? id n hn
    obtain ⟨n'', hn'', hbody', hparams', hretry'⟩ := h'.node? id n' hn'
    exact ⟨n'', hn'', hbody'.trans hbody, hparams'.trans hparams, hretry'.trans hretry⟩
  dependsOn a b hab := h'.dependsOn a b (h.dependsOn a b hab)
  exists_read a b hab := by
    rcases h'.exists_read a b hab with hab | ⟨n', v, hn', hv, hlimit, hb⟩
    · exact h.exists_read a b hab
    · obtain ⟨n, hn⟩ := mem_ids_iff.1 (h.ids_eq ▸ mem_ids_iff.2 ⟨n', hn'⟩)
      obtain ⟨m, hm, hbody, -⟩ := h.node? a n hn
      obtain rfl := Option.some.inj (hm.symm.trans hn')
      exact Or.inr ⟨n, v, hn, hv, hlimit.trans h.nodeTimeout_eq, hbody ▸ hb⟩
  defaultRetry_eq := h'.defaultRetry_eq.trans h.defaultRetry_eq
  nodeTimeout_eq := h'.nodeTimeout_eq.trans h.nodeTimeout_eq

end Later

theorem Turn.exists_read {id : NodeId} {r : Report} {calls : List Call} {o : Option Report}
    (h : Turn g recompute inputs id r calls o g') {d : NodeId} (hd : g'.DependsOn id d) :
    g.DependsOn id d ∨ ∃ n v, g.node? id = some n ∧ v.node = id ∧ v.limit = g.nodeTimeout ∧
      d ∈ (n.body v).footprint.reads := by
  have hupdate : ∀ {f : Node → Node}, Node.HistoryOnly f → (g.update id f).DependsOn id d →
      g.DependsOn id d := by
    intro f hf hd
    rwa [DependsOn, dependenciesOf_update g id id hf.dependencies_eq] at hd
  cases h with
  | skipped _ => exact Or.inl hd
  | blocked _ _ _ => exact Or.inl (hupdate (.comp .settle (.blocked _)) hd)
  | @ran n _ _ _ hn _ _ _ _ hattempted =>
    cases hattempted with
    | @completed f _ visit v _ hf _ hvisit _ _ =>
      obtain ⟨call, rfl⟩ := hvisit
      have hfn : (g.update id f).node? id = some (f n) := by
        rw [node?_update, if_pos rfl, hn]
        rfl
      obtain ⟨ds, hds, hsub⟩ := node?_complete hfn v
        (n.body (g.visitOf inputs id (g.arguments n.params) call)).footprint
      rw [DependsOn, dependenciesOf_eq hds] at hd
      rcases hsub d hd with hd | hd
      · rw [hf.dependencies_eq] at hd
        exact Or.inl (by rwa [DependsOn, dependenciesOf_eq hn])
      · exact Or.inr ⟨n, _, hn, rfl, rfl, hd⟩
    | failed hf _ _ _ _ _ => exact Or.inl (hupdate hf hd)
    | crashed hf _ => exact Or.inl (hupdate hf hd)

theorem later_visit (g : Graph) (recompute : Option (List NodeId)) (inputs : InputTable)
    (id : NodeId) (r : Report) : g.Later (g.visit recompute inputs id r).2 := by
  have hturn := visit_turn g recompute inputs id r
  have hkeeps := hturn.keeps
  generalize (g.visit recompute inputs id r).2 = g' at *
  refine ⟨hkeeps.ids_eq, fun j n hn => ?_, fun a b => hkeeps.dependsOn, fun a b hab => ?_,
    hkeeps.defaultRetry_eq, hkeeps.nodeTimeout_eq⟩
  · by_cases hj : j = id
    · subst hj
      obtain ⟨n', hn', hbody, hparams, hretry, -⟩ := hkeeps.node? n hn
      exact ⟨n', hn', hbody, hparams, hretry⟩
    · have hcore := hkeeps.core_eq j hj
      rw [hn, Option.map_some] at hcore
      obtain ⟨n', hn', hcore⟩ := Option.map_eq_some_iff.1 hcore
      exact ⟨n', hn', (congrArg Node.body hcore :), (congrArg Node.params hcore :),
        (congrArg Node.retry hcore :)⟩
  · by_cases ha : a = id
    · subst ha
      exact hturn.exists_read hab
    · rw [DependsOn, hkeeps.dependenciesOf_eq ha] at hab
      exact Or.inl hab

theorem later_visitAll (recompute : Option (List NodeId)) (inputs : InputTable)
    (ids : List NodeId) (g : Graph) (r : Report) :
    g.Later (visitAll recompute inputs ids g r).2 := by
  induction ids generalizing g r with
  | nil => exact .refl g
  | cons id ids ih =>
    have hstep := g.later_visit recompute inputs id r
    rw [visitAll]
    split
    · rename_i hvisit
      rwa [hvisit] at hstep
    · rename_i hvisit
      rw [hvisit] at hstep
      exact hstep.trans (ih _ _)

theorem later_execute {r : Option Report} (h : g.execute recompute inputs = (r, g')) :
    g.Later g' := by
  have hlater := later_visitAll recompute inputs g.order g .empty
  rw [execute] at h
  rwa [h] at hlater

/-- What walks one after another make of a graph, whether or not they come to their end. -/
def executeAll : List (Option (List NodeId) × InputTable) → Graph → Graph
  | [], g => g
  | (recompute, inputs) :: walks, g => executeAll walks (g.execute recompute inputs).2

theorem later_executeAll (walks : List (Option (List NodeId) × InputTable)) (g : Graph) :
    g.Later (executeAll walks g) := by
  induction walks generalizing g with
  | nil => exact .refl g
  | cons walk walks ih =>
    obtain ⟨recompute, inputs⟩ := walk
    exact (later_visitAll recompute inputs g.order g .empty).trans (ih _)

/-! ## The calls of a walk -/

/-- The calls that `Graph.visitAll` makes. -/
def visitAllCalls (recompute : Option (List NodeId)) (inputs : InputTable) :
    List NodeId → Graph → Report → List Call
  | [], _, _ => []
  | id :: ids, g, r =>
    g.visitCalls recompute inputs id ++
      match g.visit recompute inputs id r with
      | (none, _) => []
      | (some r, g) => visitAllCalls recompute inputs ids g r

/-- The calls that `Graph.execute` makes, in order. -/
def executeCalls (g : Graph) (recompute : Option (List NodeId)) (inputs : InputTable) :
    List Call :=
  visitAllCalls recompute inputs g.order g .empty

/-- Every call is one of the body of the node that it is made for. -/
theorem exists_body_of_mem_visitAllCalls {ids : List NodeId} {r : Report} {c : Call}
    (hc : c ∈ visitAllCalls recompute inputs ids g r) :
    ∃ n, g.node? c.visit.node = some n ∧ c.outcome = n.body c.visit := by
  induction ids generalizing g r with
  | nil => cases hc
  | cons id ids ih =>
    rw [visitAllCalls] at hc
    rcases List.mem_append.1 hc with hc | hc
    · rw [visitCalls] at hc
      split at hc
      · cases hc
      · rename_i n hn
        split at hc
        · cases hc
        · split at hc
          · cases hc
          · obtain ⟨⟨call, hvisit⟩, hbody⟩ := exists_visitOf_of_mem_attemptCalls hc
            have hnode : c.visit.node = id := by rw [hvisit]; rfl
            exact ⟨n, hnode ▸ hn, hbody⟩
    · split at hc
      · cases hc
      · rename_i r' g' hvisit
        obtain ⟨n', hn', hbody'⟩ := ih hc
        have hlater := g.later_visit recompute inputs id r
        rw [hvisit] at hlater
        obtain ⟨n, hn⟩ := mem_ids_iff.1 (hlater.ids_eq ▸ mem_ids_iff.2 ⟨n', hn'⟩)
        obtain ⟨m, hm, hbody, -⟩ := hlater.node? _ n hn
        obtain rfl := Option.some.inj (hm.symm.trans hn')
        exact ⟨n, hn, hbody'.trans (congrFun hbody _)⟩

/-- Every call of a walk belongs to the turn of a node. -/
theorem exists_turn_of_mem_visitAllCalls {ids : List NodeId} {r r' : Report}
    (h : visitAll recompute inputs ids g r = (some r', g')) {c : Call}
    (hc : c ∈ visitAllCalls recompute inputs ids g r) :
    ∃ before id after r₁ g₁ r₂ g₂, ids = before ++ id :: after ∧
      visitAll recompute inputs before g r = (some r₁, g₁) ∧
      g₁.visit recompute inputs id r₁ = (some r₂, g₂) ∧
      visitAll recompute inputs after g₂ r₂ = (some r', g') ∧
      c ∈ g₁.visitCalls recompute inputs id := by
  induction ids generalizing g r with
  | nil => cases hc
  | cons id ids ih =>
    obtain ⟨r₁, g₁, hvisit, hrest⟩ := visitAll_cons h
    rw [visitAllCalls, hvisit] at hc
    rcases List.mem_append.1 hc with hc | hc
    · exact ⟨[], id, ids, r, g, r₁, g₁, rfl, rfl, hvisit, hrest, hc⟩
    · obtain ⟨before, id', after, r₂, g₂, r₃, g₃, rfl, hbefore, hvisit', hafter, hc⟩ := ih hrest hc
      refine ⟨id :: before, id', after, r₂, g₂, r₃, g₃, rfl, ?_, hvisit', hafter, hc⟩
      rw [visitAll, hvisit]
      exact hbefore

/-- A call that completed was made on what the graph held at the turn of its node, at which no
dependency had failed. -/
theorem Turn.completed_call {id : NodeId} {r : Report} {calls : List Call} {o : Option Report}
    (h : Turn g recompute inputs id r calls o g') {c : Call} (hc : c ∈ calls) {v : Value}
    (hv : c.result = .ok v) :
    ∃ n call, g.node? id = some n ∧ (∀ d ∈ n.dependencies, g.hasFailed d = false) ∧
      c.visit = g.visitOf inputs id (g.arguments n.params) call ∧ c.outcome = n.body c.visit := by
  cases h with
  | skipped _ => cases hc
  | blocked _ _ _ => cases hc
  | @ran n _ _ _ hn _ hdependencies _ _ hattempted =>
    cases hattempted with
    | completed _ hfailures hvisit _ _ =>
      rcases List.mem_append.1 hc with hc | hc
      · exact absurd hv (hfailures c hc v)
      · obtain rfl := List.mem_singleton.1 hc
        obtain ⟨call, hvisit⟩ := hvisit
        exact ⟨n, call, hn, hdependencies, hvisit, rfl⟩
    | failed _ _ hfailures _ _ _ => exact absurd hv (hfailures c hc v)
    | crashed _ hfailures => exact absurd hv (hfailures c hc v)

end Graph

end ReactiveScript

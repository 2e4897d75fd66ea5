import ReactiveScript.Proofs.Graph.Store

/-!
# What a graph refuses

A graph refuses an edge exactly if it would close a cycle.  The test looks at the edges that are
there, and a registration replaces those of its node; that makes no difference, as a path back to
the node comes to it before it uses one of them.

`Graph.registering` and `Graph.addingDependency` carry the two operations out in place, one change
after another.  All checks come before the first change, so a refusal finds the graph as it was.

* `Graph.Rewired`, `Graph.Joined` — the edges that an operation asks for.
* `Graph.Redefines`, `Graph.Links` — what an operation that succeeds does to a graph.
* `Graph.registration_is_exact_and_atomic` — all of this for the graphs that can be built.
-/

set_option autoImplicit false

namespace ReactiveScript

namespace Graph

open Relation

variable {g g' : Graph} {id d : NodeId} {dependencies : List NodeId} {body : Body}

/-! ## Operations in place -/

/-- A registration in place: an error leaves the graph as it has become until then. -/
def registering (id : NodeId) (dependencies : List NodeId) (body : Body) :
    EStateM GraphError Graph Unit := do
  let params := NodeId.distinct dependencies
  if id ∈ params then
    throw (.cycle id id)
  let g ← get
  if g.contains id then
    if let some d := params.find? fun d => (g.affected [id]).contains d then
      throw (.cycle id d)
  modify fun g => g.withPlaceholders params
  let g ← get
  match g.node? id with
  | some n =>
    modify fun g => g.update id (Node.redefine params body)
    modify fun g => g.dropDependent id (n.dependencies.filter fun d => !params.contains d)
  | none => modify fun g => { g with nodes := Table.put id (.fresh params body) g.nodes }
  modify fun g => g.addDependent id params

/-- A further dependency in place, and whether the edge is new. -/
def addingDependency (id dependency : NodeId) : EStateM GraphError Graph Bool := do
  let g ← get
  let some n := g.node? id | throw (.unknownNode id)
  if id = dependency ∨ dependency ∈ g.affected [id] then
    throw (.cycle id dependency)
  modify fun g => g.withPlaceholders [dependency]
  if dependency ∈ n.dependencies then
    return false
  modify fun g => g.update id (Node.addDependency dependency)
  modify fun g => g.addDependent id [dependency]
  return true

/-- How an operation in place ends that changes a graph only if it succeeds. -/
def atomically {α : Type} (g : Graph) :
    Except GraphError (α × Graph) → EStateM.Result GraphError Graph α
  | .ok (a, g') => .ok a g'
  | .error e => .error e g

theorem run_registering (id : NodeId) (dependencies : List NodeId) (body : Body) (g : Graph) :
    (registering id dependencies body).run g
      = g.atomically ((g.register id dependencies body).map fun g' => ((), g')) := by
  simp only [registering, register, closing?]
  generalize NodeId.distinct dependencies = params
  by_cases hself : id ∈ params
  · simp only [if_pos hself, EStateM.run_bind, EStateM.run_throw]
    rfl
  -- What is done depends on whether the node is known and which parameter the test names.
  simp only [if_neg hself, EStateM.run_bind, EStateM.run_get]
  cases hknown : g.contains id with
  | true =>
    cases hclosing : params.find? fun d => (g.affected [id]).contains d with
    | some d =>
      simp only [if_true, EStateM.run_bind, EStateM.run_throw]
      rfl
    | none =>
      simp only [if_true, EStateM.run_bind, EStateM.run_modify, EStateM.run_get]
      cases hn : (g.withPlaceholders params).node? id <;> rfl
  | false =>
    simp only [Bool.false_eq_true, if_false, EStateM.run_bind, EStateM.run_modify, EStateM.run_get]
    cases hn : (g.withPlaceholders params).node? id <;> rfl

theorem run_addingDependency (id d : NodeId) (g : Graph) :
    (addingDependency id d).run g = g.atomically (g.addDependency id d) := by
  simp only [addingDependency, addDependency, EStateM.run_bind, EStateM.run_get]
  cases hn : g.node? id with
  | none => rfl
  | some n =>
    by_cases hcycle : id = d ∨ d ∈ g.affected [id]
    · simp only [if_pos hcycle]
      rfl
    · by_cases hold : d ∈ n.dependencies
      · simp only [if_neg hcycle, if_pos hold]
        rfl
      · simp only [if_neg hcycle, if_neg hold]
        rfl

/-! ## The edges that are asked for -/

/-- The edges with those of one node replaced. -/
def Rewired (g : Graph) (id : NodeId) (dependencies : List NodeId) (a b : NodeId) : Prop :=
  if a = id then b ∈ dependencies else g.DependsOn a b

/-- The edges with one more. -/
def Joined (g : Graph) (id d : NodeId) (a b : NodeId) : Prop := g.DependsOn a b ∨ a = id ∧ b = d

/-- Some node depends on itself through others. -/
def Cyclic (r : NodeId → NodeId → Prop) : Prop := ∃ a, TransGen r a a

/-- A path to a node comes to it before it uses one of the edges of the node. -/
theorem rewired_of_reaches {c : NodeId} (h : ReflTransGen g.DependsOn c id) :
    ReflTransGen (g.Rewired id dependencies) c id := by
  induction h using ReflTransGen.head_induction_on with
  | refl => exact .refl
  | @head a b hab _ ih =>
    by_cases ha : a = id
    · exact ha ▸ .refl
    · refine ih.head ?_
      rw [Rewired, if_neg ha]
      exact hab

theorem cyclic_rewired {c : NodeId} (hc : c ∈ dependencies) (h : ReflTransGen g.DependsOn c id) :
    Cyclic (g.Rewired id dependencies) := by
  have hedge : g.Rewired id dependencies id c := by simpa [Rewired] using hc
  exact ⟨id, TransGen.head' hedge (rewired_of_reaches h)⟩

theorem cyclic_joined (h : ReflTransGen g.DependsOn d id) : Cyclic (g.Joined id d) := by
  have hedge : g.Joined id d id d := Or.inr ⟨rfl, rfl⟩
  exact ⟨id, TransGen.head' hedge (ReflTransGen.mono (fun _ _ => Or.inl) _ _ h)⟩

/-! ## What is refused -/

/-- The parameter that the test of `Graph.register` names depends on the node. -/
theorem WellFormed.reaches_of_closing? (h : g.WellFormed) {params : List NodeId} {c : NodeId}
    (hclosing : g.closing? id params = some c) :
    c ∈ params ∧ ReflTransGen g.DependsOn c id := by
  rw [closing?] at hclosing
  split at hclosing
  · obtain rfl := Option.some.inj hclosing
    exact ⟨‹_›, .refl⟩
  · split at hclosing
    · have hfound := List.find?_some hclosing
      obtain ⟨k, hk, -, hck⟩ := h.mem_affected_iff.1 (List.contains_iff_mem.1 hfound)
      rw [List.mem_singleton.1 hk] at hck
      exact ⟨List.mem_of_find?_eq_some hclosing, hck⟩
    · cases hclosing

theorem closing?_of_register {e : GraphError} (hreg : g.register id dependencies body = .error e) :
    ∃ c, g.closing? id (NodeId.distinct dependencies) = some c ∧ e = .cycle id c := by
  cases hclosing : g.closing? id (NodeId.distinct dependencies) with
  | some c =>
    rw [register] at hreg
    simp only [hclosing] at hreg
    exact ⟨c, rfl, (Except.error.inj hreg).symm⟩
  | none =>
    obtain ⟨g', hok⟩ := exists_register_of_closing? hclosing body
    rw [hok] at hreg
    cases hreg

theorem dependsOn_register (hreg : g.register id dependencies body = .ok g') :
    g'.DependsOn = g.Rewired id dependencies := by
  funext a b
  rw [DependsOn, dependenciesOf_register hreg, Rewired]
  split
  · simp
  · rfl

/-- **A registration is refused exactly if it would close a cycle**, and the parameter that the
error names depends on the node already. -/
theorem WellFormed.register_eq_error (h : g.WellFormed) (id : NodeId)
    (dependencies : List NodeId) (body : Body) :
    ((∃ c, g.register id dependencies body = .error (.cycle id c)) ↔
      Cyclic (g.Rewired id dependencies)) ∧
    ∀ e, g.register id dependencies body = .error e →
      ∃ c ∈ dependencies, e = .cycle id c ∧ ReflTransGen g.DependsOn c id := by
  have hnamed : ∀ e, g.register id dependencies body = .error e →
      ∃ c ∈ dependencies, e = .cycle id c ∧ ReflTransGen g.DependsOn c id := by
    intro e he
    obtain ⟨c, hclosing, rfl⟩ := closing?_of_register he
    obtain ⟨hc, hcid⟩ := h.reaches_of_closing? hclosing
    exact ⟨c, NodeId.mem_distinct.1 hc, rfl, hcid⟩
  refine ⟨⟨fun ⟨c, hc⟩ => ?_, fun ⟨a, haa⟩ => ?_⟩, hnamed⟩
  · obtain ⟨c, hmem, -, hcid⟩ := hnamed _ hc
    exact cyclic_rewired hmem hcid
  · cases hreg : g.register id dependencies body with
    | error e =>
      obtain ⟨c, -, rfl, -⟩ := hnamed e hreg
      exact ⟨c, rfl⟩
    | ok g' => exact absurd (dependsOn_register hreg ▸ haa) ((h.register hreg).acyclic a)

theorem addDependency_eq_error {e : GraphError} (hid : id ∈ g.ids)
    (hadd : g.addDependency id d = .error e) :
    e = .cycle id d ∧ (id = d ∨ d ∈ g.affected [id]) := by
  obtain ⟨n, hn⟩ := mem_ids_iff.1 hid
  rw [addDependency, hn] at hadd
  simp only at hadd
  split at hadd
  · exact ⟨(Except.error.inj hadd).symm, ‹_›⟩
  · split at hadd <;> cases hadd

theorem dependsOn_addDependency {isNew : Bool} (hadd : g.addDependency id d = .ok (isNew, g')) :
    g'.DependsOn = g.Joined id d := by
  obtain ⟨n, hn, -, -, ⟨-, hd, rfl⟩ | ⟨-, -, rfl⟩⟩ := addDependency_cases hadd
  · rw [dependsOn_withPlaceholders]
    funext a b
    refine propext ⟨Or.inl, fun hab => hab.elim (fun hab => hab) ?_⟩
    rintro ⟨rfl, rfl⟩
    rwa [DependsOn, dependenciesOf_eq hn]
  · have hid : id ∈ (g.withPlaceholders [d]).ids :=
      mem_ids_withPlaceholders.2 (Or.inl (mem_ids_iff.2 ⟨n, hn⟩))
    funext a b
    rw [DependsOn, dependenciesOf_withEdge hid, Joined, DependsOn]
    simp only [dependenciesOf_withPlaceholders]
    by_cases ha : id = a
    · subst ha
      simp [NodeId.mem_insert, or_comm]
    · simp [ha, Ne.symm ha]

/-- **An edge is refused exactly if it would close a cycle.** -/
theorem WellFormed.addDependency_eq_error (h : g.WellFormed) (hid : id ∈ g.ids) (d : NodeId) :
    ((∃ e, g.addDependency id d = .error e) ↔ Cyclic (g.Joined id d)) ∧
    ∀ e, g.addDependency id d = .error e → e = .cycle id d := by
  refine ⟨⟨fun ⟨e, he⟩ => cyclic_joined ?_, fun ⟨a, haa⟩ => ?_⟩,
    fun e he => (Graph.addDependency_eq_error hid he).1⟩
  · rcases (Graph.addDependency_eq_error hid he).2 with rfl | hd
    · exact .refl
    · obtain ⟨k, hk, -, hdk⟩ := h.mem_affected_iff.1 hd
      rwa [List.mem_singleton.1 hk] at hdk
  · cases hadd : g.addDependency id d with
    | error e => exact ⟨e, rfl⟩
    | ok r => exact absurd (dependsOn_addDependency hadd ▸ haa) ((h.addDependency hadd).acyclic a)

/-! ## What is left of the nodes -/

/-- What a registration does to a graph. -/
structure Redefines (g : Graph) (id : NodeId) (dependencies : List NodeId) (body : Body)
    (g' : Graph) : Prop where
  /-- A known node keeps what has become of it.  What it was only seen to read is no dependency of
  it any more. -/
  known : ∀ n, g.node? id = some n → g'.node? id = some
    { n with
      body := body
      params := NodeId.distinct dependencies
      dependencies := NodeId.set dependencies
      isPlaceholder := false
      calls := 0 }
  /-- A new node has not run. -/
  new : g.node? id = none → g'.node? id = some (.fresh (NodeId.distinct dependencies) body)
  /-- Other nodes keep everything, but that the node comes to their dependents or leaves them. -/
  others : ∀ j n, j ≠ id → g.node? j = some n →
    g'.node? j = some (if j ∈ dependencies then n.addDependent id else n.removeDependent id)
  /-- Unknown dependencies get placeholders, and no other node is added. -/
  added : ∀ j, j ≠ id → g.node? j = none →
    g'.node? j = if j ∈ dependencies then some (Node.placeholder.addDependent id) else none
  /-- What is stored stays. -/
  sameStore : g.SameStore g'

/-- What a further dependency does to a graph. -/
structure Links (g : Graph) (id d : NodeId) (g' : Graph) : Prop where
  /-- The node has one more dependency, if it is not there yet, and keeps everything else. -/
  node : ∀ n, g.node? id = some n → g'.node? id = some (n.addDependency d)
  /-- Other nodes keep everything, but that the node comes to the dependents of one. -/
  others : ∀ j n, j ≠ id → g.node? j = some n →
    g'.node? j = some (if j = d then n.addDependent id else n)
  /-- An unknown dependency gets a placeholder, and no other node is added. -/
  added : ∀ j, j ≠ id → g.node? j = none →
    g'.node? j = if j = d then some (Node.placeholder.addDependent id) else none
  /-- What is stored stays. -/
  sameStore : g.SameStore g'

/-- A node is determined by its core and its dependents. -/
theorem node?_of_core {j : NodeId} {n : Node} (hcore : (g.node? j).map Node.core = some n.core)
    (hdependents : g.dependentsOf j = n.dependents) : g.node? j = some n := by
  obtain ⟨m, hm, hmn⟩ := Option.map_eq_some_iff.1 hcore
  rw [dependentsOf_eq hm] at hdependents
  rw [hm]
  cases m
  cases n
  simp_all [Node.core]

theorem WellFormed.not_mem_dependents (h : g.WellFormed) {n : Node} (hn : g.node? id = some n) :
    id ∉ n.dependents := by
  intro hid
  rw [← dependentsOf_eq hn] at hid
  exact h.acyclic id (.single ((h.mirrored id id).2 hid))

/-- A node after a registration, from its core and its dependents. -/
theorem WellFormed.node?_register (h : g.WellFormed)
    (hreg : g.register id dependencies body = .ok g') {j : NodeId} {n : Node}
    (hcore : (g'.node? j).map Node.core = some n.core) (hsorted : NodeId.Sorted n.dependents)
    (hmem : ∀ a, a ∈ n.dependents ↔ if a = id then j ∈ dependencies else a ∈ g.dependentsOf j) :
    g'.node? j = some n := by
  obtain ⟨hsorted', hmem'⟩ := dependentsOf_register h hreg j
  exact node?_of_core hcore (hsorted'.eq_of_mem_iff hsorted fun a => (hmem' a).trans (hmem a).symm)

/-- **What a registration does.** -/
theorem WellFormed.redefines (h : g.WellFormed)
    (hreg : g.register id dependencies body = .ok g') : g.Redefines id dependencies body g' := by
  have hself : id ∉ dependencies := fun hid => not_mem_of_register hreg (NodeId.mem_distinct.2 hid)
  have hcore := core_register hreg
  have hsorted : ∀ {j n}, g.node? j = some n → NodeId.Sorted n.dependents := by
    intro j n hn
    rw [← dependentsOf_eq hn]
    exact h.dependents_sorted j
  refine ⟨fun n hn => ?known, fun hn => ?new, fun j n hj hn => ?others, fun j hj hn => ?added,
    .register hreg⟩
  case known =>
    have hold := hsorted hn
    refine h.node?_register hreg ?_ hold fun a => ?_
    · rw [hcore, if_pos rfl, hn, registered, Node.redefine, NodeId.set_distinct]
    · rw [dependentsOf_eq hn]
      by_cases ha : a = id
      · simp [ha, hself, h.not_mem_dependents hn]
      · simp [ha]
  case new =>
    refine h.node?_register hreg ?_ .nil fun a => ?_
    · rw [hcore, if_pos rfl, hn, registered]
    · by_cases ha : a = id <;> simp [ha, hself, dependentsOf, hn, Node.fresh]
  case others =>
    have hkeeps : (g'.node? j).map Node.core = some n.core := by
      rw [hcore, if_neg hj, if_pos (mem_ids_iff.2 ⟨n, hn⟩), hn]
      rfl
    by_cases hjd : j ∈ dependencies
    · rw [if_pos hjd]
      refine h.node?_register hreg hkeeps (hsorted hn).insert fun a => ?_
      rw [Node.addDependent, NodeId.mem_insert, dependentsOf_eq hn]
      by_cases ha : a = id <;> simp [ha, hjd]
    · rw [if_neg hjd]
      refine h.node?_register hreg hkeeps (hsorted hn).erase fun a => ?_
      rw [Node.removeDependent, (hsorted hn).nodup.mem_erase_iff, dependentsOf_eq hn]
      by_cases ha : a = id <;> simp [ha, hjd]
  case added =>
    have hcore := hcore j
    rw [if_neg hj, if_neg (node?_eq_none_iff.1 hn)] at hcore
    by_cases hjd : j ∈ dependencies
    · rw [if_pos hjd] at hcore ⊢
      refine h.node?_register hreg hcore (NodeId.Sorted.insert .nil) fun a => ?_
      rw [Node.addDependent, NodeId.mem_insert, dependentsOf, hn]
      by_cases ha : a = id <;> simp [ha, hjd, Node.placeholder, Node.fresh]
    · rw [if_neg hjd] at hcore ⊢
      rwa [Option.map_eq_none_iff] at hcore

/-! ## Doing it again -/

theorem update_of_node? {n : Node} {f : Node → Node} (hn : g.node? id = some n) (hf : f n = n) :
    g.update id f = g := by
  rw [update, Table.update_of_get? hn hf]

theorem foldl_update_of_node? {f : Node → Node} {ids : List NodeId}
    (h : ∀ i ∈ ids, ∃ n, g.node? i = some n ∧ f n = n) :
    ids.foldl (fun g i => g.update i f) g = g := by
  induction ids with
  | nil => rfl
  | cons i ids ih =>
    obtain ⟨n, hn, hf⟩ := h i List.mem_cons_self
    rw [List.foldl_cons, update_of_node? hn hf]
    exact ih fun j hj => h j (List.mem_cons_of_mem i hj)

theorem withPlaceholders_of_subset {ids : List NodeId} (h : ∀ i ∈ ids, i ∈ g.ids) :
    g.withPlaceholders ids = g := by
  induction ids with
  | nil => rfl
  | cons i ids ih =>
    rw [withPlaceholders, if_pos (contains_iff.2 (h i List.mem_cons_self))]
    exact ih fun j hj => h j (List.mem_cons_of_mem i hj)

/-- An edge that is there at both ends can be put there again. -/
theorem WellFormed.addDependent_of_dependsOn (h : g.WellFormed) {ids : List NodeId}
    (hids : ∀ i ∈ ids, g.DependsOn id i) : g.addDependent id ids = g := by
  refine foldl_update_of_node? fun i hi => ?_
  obtain ⟨n, hn⟩ := mem_ids_iff.1 (h.mem_ids_of_dependsOn (hids i hi)).2
  have hsorted := h.dependents_sorted i
  have hmem := (h.mirrored id i).1 (hids i hi)
  rw [dependentsOf_eq hn] at hsorted hmem
  refine ⟨n, hn, ?_⟩
  rw [Node.addDependent, NodeId.insert_of_mem hsorted hmem]

/-- **Registering a node again with the same arguments changes nothing.** -/
theorem WellFormed.register_again (h : g.WellFormed)
    (hreg : g.register id dependencies body = .ok g') :
    g'.register id dependencies body = .ok g' := by
  have hwell := h.register hreg
  have hedges : ∀ p ∈ NodeId.distinct dependencies, g'.DependsOn id p := by
    intro p hp
    rw [dependsOn_register hreg, Rewired, if_pos rfl]
    exact NodeId.mem_distinct.1 hp
  have hclosing : g'.closing? id (NodeId.distinct dependencies) = none := by
    refine hwell.closing?_eq_none fun p hp => ?_
    exact ⟨fun heq => not_mem_of_register hreg (heq ▸ hp), fun hpid =>
      hwell.acyclic id (TransGen.head' (hedges p hp) hpid)⟩
  have hself : ∃ n, g'.node? id = some n ∧ n.redefine (NodeId.distinct dependencies) body = n := by
    have hredefines := h.redefines hreg
    cases hn : g.node? id with
    | some n => exact ⟨_, hredefines.known n hn, by rw [Node.redefine, NodeId.set_distinct]⟩
    | none => exact ⟨_, hredefines.new hn, rfl⟩
  obtain ⟨n, hn, hfix⟩ := hself
  have hdrop :
      n.dependencies.filter (fun d => !(NodeId.distinct dependencies).contains d) = [] := by
    rw [← hfix, List.filter_eq_nil_iff]
    simp [Node.redefine]
  have hplaced : g'.withPlaceholders (NodeId.distinct dependencies) = g' :=
    withPlaceholders_of_subset fun p hp => (hwell.mem_ids_of_dependsOn (hedges p hp)).2
  rw [Graph.register]
  simp only [hclosing, hplaced, hn, hdrop, update_of_node? hn hfix]
  exact congrArg Except.ok (hwell.addDependent_of_dependsOn hedges)

theorem WellFormed.withEdge_of_dependsOn (h : g.WellFormed) (hd : g.DependsOn id d) :
    g.withEdge id d = g := by
  obtain ⟨n, hn⟩ := mem_ids_iff.1 (h.mem_ids_of_dependsOn hd).1
  have hsorted := h.dependencies_sorted id
  have hmem : d ∈ g.dependenciesOf id := hd
  rw [dependenciesOf_eq hn] at hsorted hmem
  have hfix : n.addDependency d = n := by rw [Node.addDependency, NodeId.insert_of_mem hsorted hmem]
  rw [Graph.withEdge, update_of_node? hn hfix]
  exact h.addDependent_of_dependsOn fun i hi => List.mem_singleton.1 hi ▸ hd

theorem WellFormed.eq_withEdge (h : g.WellFormed) {isNew : Bool}
    (hadd : g.addDependency id d = .ok (isNew, g')) :
    g' = (g.withPlaceholders [d]).withEdge id d := by
  obtain ⟨n, hn, -, -, ⟨-, hd, rfl⟩ | ⟨-, -, rfl⟩⟩ := addDependency_cases hadd
  · refine ((h.withPlaceholders [d]).withEdge_of_dependsOn ?_).symm
    rw [dependsOn_withPlaceholders, DependsOn, dependenciesOf_eq hn]
    exact hd
  · rfl

theorem node?_withEdge (g : Graph) (id d j : NodeId) :
    (g.withEdge id d).node? j
      = if j = d then (if id = j then (g.node? j).map (Node.addDependency d) else g.node? j).map
          (Node.addDependent id)
        else if id = j then (g.node? j).map (Node.addDependency d) else g.node? j := by
  simp only [withEdge, node?_addDependent id (List.nodup_singleton d), node?_update,
    List.mem_singleton]

/-- **What a further dependency does.** -/
theorem WellFormed.links (h : g.WellFormed) {isNew : Bool}
    (hadd : g.addDependency id d = .ok (isNew, g')) : g.Links id d g' := by
  have heq := h.eq_withEdge hadd
  obtain ⟨-, -, hne, -⟩ := addDependency_cases hadd
  refine ⟨fun n hn => ?node, fun j n hj hn => ?others, fun j hj hn => ?added, .addDependency hadd⟩
  case node =>
    have hid : id ∈ g.ids := mem_ids_iff.2 ⟨n, hn⟩
    simp [heq, node?_withEdge, node?_withPlaceholders, hne, hid, hn]
  case others =>
    have hid : j ∈ g.ids := mem_ids_iff.2 ⟨n, hn⟩
    by_cases hjd : j = d
    · subst hjd
      simp [heq, node?_withEdge, node?_withPlaceholders, hid, hn, hne]
    · simp [heq, node?_withEdge, node?_withPlaceholders, hid, hn, hjd, Ne.symm hj]
  case added =>
    have hid : j ∉ g.ids := node?_eq_none_iff.1 hn
    by_cases hjd : j = d
    · subst hjd
      simp [heq, node?_withEdge, node?_withPlaceholders, hid, hne]
    · simp [heq, node?_withEdge, node?_withPlaceholders, hid, hjd]

/-! ## Both operations -/

/-- **Cycles are refused exactly and atomically.**  A registration is refused if and only if the
given dependencies in place of the old ones would make the edges cyclic, and a further dependency of
a registered node if and only if the edge would.  Carried out in place, the two end with the same
results, and with the graph as it was if they fail.  A registration that succeeds gives its node
exactly the given dependencies and leaves everything else alone, and the second time it changes
nothing. -/
theorem registration_is_exact_and_atomic (hg : Reachable g) (id d : NodeId)
    (dependencies : List NodeId) (body : Body) :
    ((∃ c, g.register id dependencies body = .error (.cycle id c)) ↔
      Cyclic (g.Rewired id dependencies)) ∧
    (id ∈ g.ids → (g.addDependency id d = .error (.cycle id d) ↔ Cyclic (g.Joined id d))) ∧
    (registering id dependencies body).run g
      = g.atomically ((g.register id dependencies body).map fun g' => ((), g')) ∧
    (addingDependency id d).run g = g.atomically (g.addDependency id d) ∧
    (∀ e, g.register id dependencies body = .error e → ∃ c ∈ dependencies, e = .cycle id c) ∧
    (∀ e, g.addDependency id d = .error e →
      e = if g.contains id then .cycle id d else .unknownNode id) ∧
    (∀ g', g.register id dependencies body = .ok g' →
      g.Redefines id dependencies body g' ∧ g'.register id dependencies body = .ok g') ∧
    ∀ isNew g', g.addDependency id d = .ok (isNew, g') → g.Links id d g' := by
  have hwell := hg.wellFormed
  obtain ⟨hrefuses, hnamed⟩ := hwell.register_eq_error id dependencies body
  refine ⟨hrefuses, fun hid => ?_, run_registering id dependencies body g,
    run_addingDependency id d g, fun e he => ?_, fun e he => ?_,
    fun g' hreg => ⟨hwell.redefines hreg, hwell.register_again hreg⟩,
    fun isNew g' hadd => hwell.links hadd⟩
  · obtain ⟨hcyclic, hcycle⟩ := hwell.addDependency_eq_error hid d
    refine ⟨fun he => hcyclic.1 ⟨_, he⟩, fun hjoined => ?_⟩
    obtain ⟨e, he⟩ := hcyclic.2 hjoined
    rw [he, hcycle e he]
  · obtain ⟨c, hc, heq, -⟩ := hnamed e he
    exact ⟨c, hc, heq⟩
  · split
    · exact (addDependency_eq_error (contains_iff.1 ‹_›) he).1
    · rename_i hid
      rw [contains_iff, ← node?_eq_none_iff] at hid
      rw [addDependency, hid] at he
      exact (Except.error.inj he).symm

/-- Two nodes, of which the second depends on the first. -/
def pairOfNodes : Except GraphError Graph :=
  (empty none none).registerAll
    [(⟨"a"⟩, [], .constant .null), (⟨"b"⟩, [⟨"a"⟩], .constant .null)]

/-- The theorem applies to two nodes of which each would depend on the other, and to a redefinition
that is not refused. -/
theorem registration_is_exact_and_atomic_of_two :
    ∃ g, pairOfNodes = .ok g ∧ Reachable g ∧ ⟨"a"⟩ ∈ g.ids ∧ Cyclic (g.Joined ⟨"a"⟩ ⟨"b"⟩) ∧
      (addingDependency ⟨"a"⟩ ⟨"b"⟩).run g = .error (.cycle ⟨"a"⟩ ⟨"b"⟩) g ∧
      Cyclic (g.Rewired ⟨"a"⟩ [⟨"c"⟩, ⟨"b"⟩]) ∧
      (∃ c, (registering ⟨"a"⟩ [⟨"c"⟩, ⟨"b"⟩] .idle).run g = .error (.cycle ⟨"a"⟩ c) g) ∧
      ∃ g', g.register ⟨"b"⟩ [⟨"c"⟩] .idle = .ok g' ∧ g.Redefines ⟨"b"⟩ [⟨"c"⟩] .idle g' ∧
        g'.register ⟨"b"⟩ [⟨"c"⟩] .idle = .ok g' := by
  obtain ⟨g, hbuilt, htest⟩ := exists_built_of_any pairOfNodes
    (fun g => g.contains ⟨"a"⟩ && (g.dependenciesOf ⟨"b"⟩).contains ⟨"a"⟩ &&
      (g.register ⟨"b"⟩ [⟨"c"⟩] .idle).toOption.isSome) (by cbv)
  simp only [Bool.and_eq_true, contains_iff, List.contains_iff_mem] at htest
  obtain ⟨⟨hid, hba⟩, hok⟩ := htest
  have hg : Reachable g := Reachable.registerAll (.empty none none) hbuilt
  have hjoined : Cyclic (g.Joined ⟨"a"⟩ ⟨"b"⟩) := cyclic_joined (.single hba)
  have hrewired : Cyclic (g.Rewired ⟨"a"⟩ [⟨"c"⟩, ⟨"b"⟩]) := cyclic_rewired (by simp) (.single hba)
  obtain ⟨hrefuses, hcycle, hreg, hadd, -⟩ :=
    registration_is_exact_and_atomic hg ⟨"a"⟩ ⟨"b"⟩ [⟨"c"⟩, ⟨"b"⟩] .idle
  refine ⟨g, hbuilt, hg, hid, hjoined, ?_, hrewired, ?_, ?_⟩
  · rw [hadd, (hcycle hid).2 hjoined]
    rfl
  · obtain ⟨c, hc⟩ := hrefuses.2 hrewired
    refine ⟨c, ?_⟩
    rw [hreg, hc]
    rfl
  · cases hredefined : g.register ⟨"b"⟩ [⟨"c"⟩] .idle with
    | error e => simp [hredefined, Except.toOption] at hok
    | ok g' =>
      obtain ⟨-, -, -, -, -, -, hdoes, -⟩ :=
        registration_is_exact_and_atomic hg ⟨"b"⟩ ⟨"b"⟩ [⟨"c"⟩] .idle
      exact ⟨g', rfl, hdoes g' hredefined⟩

end Graph

end ReactiveScript

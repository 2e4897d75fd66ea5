import ReactiveScript.Proofs.Graph.Latest
import ReactiveScript.Proofs.Graph.Producers

/-!
# What a walk leaves alone

A node that is not selected comes out of a walk as it went in, but for its dependents: nodes that
completed in the walk may have been seen to read it.  The record of who emitted a unit changes only
for units that a completed call has emitted.  A walk that selects no node does nothing.  All this
holds of walks that break off as well.

* `Graph.Spares` — what a turn or a walk leaves of a node.
* `Turn.spares`, `Graph.spares_visitAll` — one turn, and several.
* `unselected_nodes_are_untouched` — the theorem.
-/

set_option autoImplicit false

namespace ReactiveScript

/-- A node later on: the same but for further dependents, which are all of some kind. -/
def Node.Gains (n n' : Node) (new : NodeId → Prop) : Prop :=
  ∃ ds, n' = { n with dependents := ds } ∧ n.dependents ⊆ ds ∧ ∀ a ∈ ds, a ∈ n.dependents ∨ new a

namespace Node.Gains

variable {n n' n'' : Node} {new new' : NodeId → Prop}

theorem refl (n : Node) (new : NodeId → Prop) : n.Gains n new :=
  ⟨n.dependents, rfl, List.Subset.refl _, fun _ ha => Or.inl ha⟩

theorem mono (h : n.Gains n' new) (hnew : ∀ a, new a → new' a) : n.Gains n' new' := by
  obtain ⟨ds, heq, hsub, hds⟩ := h
  exact ⟨ds, heq, hsub, fun a ha => (hds a ha).imp_right (hnew a)⟩

theorem trans (h : n.Gains n' new) (h' : n'.Gains n'' new) : n.Gains n'' new := by
  obtain ⟨ds, rfl, hsub, hds⟩ := h
  obtain ⟨ds', rfl, hsub', hds'⟩ := h'
  exact ⟨ds', rfl, List.Subset.trans hsub hsub', fun a ha => (hds' a ha).elim (hds a) Or.inr⟩

theorem addDependent (n : Node) (id : NodeId) : n.Gains (n.addDependent id) (· = id) :=
  ⟨_, rfl, fun _ ha => NodeId.mem_insert.2 (Or.inr ha), fun _ ha => (NodeId.mem_insert.1 ha).symm⟩

end Node.Gains

namespace Graph

variable {g g' g'' : Graph} {recompute : Option (List NodeId)} {inputs : InputTable}
  {id j : NodeId} {r : Report} {o : Option Report} {calls : List Call} {new new' : NodeId → Prop}

/-! ## Sparing a node -/

/-- A node comes out as it went in, but for new dependents of some kind. -/
structure Spares (g g' : Graph) (j : NodeId) (new : NodeId → Prop) : Prop where
  /-- The node only gains dependents. -/
  node? : ∀ n, g.node? j = some n → ∃ n', g'.node? j = some n' ∧ n.Gains n' new
  /-- Its value stays. -/
  value?_eq : g'.value? j = g.value? j
  /-- The settings stay. -/
  defaultRetry_eq : g'.defaultRetry = g.defaultRetry

namespace Spares

theorem refl (g : Graph) (j : NodeId) (new : NodeId → Prop) : g.Spares g j new where
  node? n hn := ⟨n, hn, .refl n new⟩
  value?_eq := rfl
  defaultRetry_eq := rfl

theorem mono (h : g.Spares g' j new) (hnew : ∀ a, new a → new' a) : g.Spares g' j new' where
  node? n hn := by
    obtain ⟨n', hn', hgains⟩ := h.node? n hn
    exact ⟨n', hn', hgains.mono hnew⟩
  value?_eq := h.value?_eq
  defaultRetry_eq := h.defaultRetry_eq

theorem trans (h : g.Spares g' j new) (h' : g'.Spares g'' j new) : g.Spares g'' j new where
  node? n hn := by
    obtain ⟨n', hn', hgains⟩ := h.node? n hn
    obtain ⟨n'', hn'', hgains'⟩ := h'.node? n' hn'
    exact ⟨n'', hn'', hgains.trans hgains'⟩
  value?_eq := h'.value?_eq.trans h.value?_eq
  defaultRetry_eq := h'.defaultRetry_eq.trans h.defaultRetry_eq

/-- Changing a node spares the others. -/
theorem update (hj : j ≠ id) (g : Graph) (f : Node → Node) (new : NodeId → Prop) :
    g.Spares (g.update id f) j new where
  node? n hn := ⟨n, by rw [node?_update, if_neg (Ne.symm hj), hn], .refl n new⟩
  value?_eq := rfl
  defaultRetry_eq := rfl

/-- A new edge from a node gives another one at most that dependent. -/
theorem withEdge (hj : j ≠ id) (g : Graph) (d : NodeId) :
    g.Spares (g.withEdge id d) j (· = id) where
  node? n hn := by
    rw [Graph.withEdge, node?_addDependent id (List.nodup_singleton d), node?_update,
      if_neg (Ne.symm hj), hn]
    split
    · exact ⟨_, rfl, .addDependent n id⟩
    · exact ⟨n, rfl, .refl n _⟩
  value?_eq := rfl
  defaultRetry_eq := rfl

theorem recordReads (hj : j ≠ id) (g : Graph) (reads : List NodeId) :
    g.Spares (g.recordReads id reads) j (· = id) :=
  recordReads_induction (P := fun g' => g.Spares g' j (· = id)) (.refl g j _)
    fun g' d h _ _ _ _ _ => h.trans (.withEdge hj g' d)

/-- A node that completes is at most a new dependent of another one. -/
theorem complete (hj : j ≠ id) (g : Graph) (v : Value) (f : Footprint) :
    g.Spares (g.complete id v f) j (· = id) := by
  have hreads := recordReads hj g f.reads
  refine (Spares.trans ?_ (.update hj _ (Node.completed f.elapsed) _) :)
  refine ⟨hreads.node?, ?_, hreads.defaultRetry_eq⟩
  rw [value?, Table.get?_put, if_neg (Ne.symm hj)]
  exact hreads.value?_eq

/-- A spared node is selected if it was. -/
theorem selects_eq (h : g.Spares g' j new) {n n' : Node} (hn : g.node? j = some n)
    (hn' : g'.node? j = some n') : g'.selects recompute j n' = g.selects recompute j n := by
  obtain ⟨m, hm, ds, rfl, -⟩ := h.node? n hn
  obtain rfl := Option.some.inj (hm.symm.trans hn')
  cases recompute with
  | none => rfl
  | some ids =>
    rw [selects, selects, h.defaultRetry_eq]
    rfl

end Spares

/-! ## Turns -/

/-- A node that completed in some calls. -/
def CompletedIn (calls : List Call) (a : NodeId) : Prop :=
  ∃ c ∈ calls, c.completes = true ∧ c.visit.node = a

theorem CompletedIn.of_subset {calls' : List Call} (hsub : calls ⊆ calls') {a : NodeId}
    (h : CompletedIn calls a) : CompletedIn calls' a := by
  obtain ⟨c, hc, hrest⟩ := h
  exact ⟨c, hsub hc, hrest⟩

/-- Nothing happens at the turn of a node that is not selected. -/
theorem Turn.eq_of_unselected (h : Turn g recompute inputs id r calls o g')
    (hid : ∀ n, g.node? id = some n → g.selects recompute id n = false) :
    calls = [] ∧ o = some r ∧ g' = g := by
  cases h with
  | skipped => exact ⟨rfl, rfl, rfl⟩
  | blocked hn hselects => exact absurd ((hid _ hn).symm.trans hselects) Bool.false_ne_true
  | ran hn hselects => exact absurd ((hid _ hn).symm.trans hselects) Bool.false_ne_true

/-- **The turn of a node spares all others.** -/
theorem Turn.spares (h : Turn g recompute inputs id r calls o g') (hj : j ≠ id) :
    g.Spares g' j (CompletedIn calls) := by
  cases h with
  | skipped => exact .refl g j _
  | blocked => exact .update hj g _ _
  | ran _ _ _ _ _ hattempted =>
    cases hattempted with
    | @completed f failures visit v _ _ _ hvisit hresult _ =>
      obtain ⟨call, rfl⟩ := hvisit
      refine (Spares.update hj g f _).trans ((Spares.complete hj _ v _).mono ?_)
      rintro a rfl
      exact ⟨_, List.mem_append_right _ List.mem_cons_self, Call.completes_iff.2 ⟨v, hresult⟩, rfl⟩
    | failed => exact .update hj g _ _
    | crashed => exact .update hj g _ _

/-- A unit that no completed call of a turn emitted stays with its producer. -/
theorem Turn.producer?_eq (h : Turn g recompute inputs id r calls o g') {unit : UnitId}
    (hunit : ∀ c ∈ calls, c.completes = true → unit ∉ c.units.map OutputUnit.id) :
    g'.producer? unit = g.producer? unit := by
  cases h with
  | skipped | blocked => rfl
  | ran _ _ _ _ _ hattempted =>
    cases hattempted with
    | @completed f failures visit v _ _ _ hvisit hresult _ =>
      obtain ⟨call, rfl⟩ := hvisit
      have hnot := hunit _ (List.mem_append_right _ List.mem_cons_self)
        (Call.completes_iff.2 ⟨v, hresult⟩)
      rw [producer?, producers_complete]
      exact (get?_creditOne _ id _ unit).trans (if_neg hnot)
    | failed | crashed => rfl

/-! ## Walks -/

/-- **Turns spare every node that is not selected when they begin**: it is not selected at its own
turn either, so that nothing happens to it there. -/
theorem spares_visitAll (recompute : Option (List NodeId)) (inputs : InputTable)
    (ids : List NodeId) (g : Graph) (r : Report)
    (hj : ∀ n, g.node? j = some n → g.selects recompute j n = false) :
    g.Spares (visitAll recompute inputs ids g r).2 j
      (CompletedIn (visitAllCalls recompute inputs ids g r)) := by
  induction ids generalizing g r with
  | nil => exact .refl g j _
  | cons id ids ih =>
    have hturn := visit_turn g recompute inputs id r
    have hfirst : g.Spares (g.visit recompute inputs id r).2 j
        (CompletedIn (g.visitCalls recompute inputs id)) := by
      by_cases hid : j = id
      · subst hid
        rw [(hturn.eq_of_unselected hj).2.2]
        exact .refl g j _
      · exact hturn.spares hid
    rw [visitAll, visitAllCalls]
    generalize hvisit : g.visit recompute inputs id r = visited at hfirst
    obtain ⟨_ | r₁, g₁⟩ := visited
    · exact hfirst.mono fun a ha => ha.of_subset (List.subset_append_left _ _)
    · have hj' : ∀ n', g₁.node? j = some n' → g₁.selects recompute j n' = false := by
        intro n' hn'
        have hlater := g.later_visit recompute inputs id r
        rw [hvisit] at hlater
        obtain ⟨n, hn⟩ := mem_ids_iff.1 (hlater.ids_eq ▸ mem_ids_iff.2 ⟨n', hn'⟩)
        exact (hfirst.selects_eq hn hn').trans (hj n hn)
      exact (hfirst.mono fun a ha => ha.of_subset (List.subset_append_left _ _)).trans
        ((ih g₁ r₁ hj').mono fun a ha => ha.of_subset (List.subset_append_right _ _))

theorem producer?_visitAll {ids : List NodeId} {unit : UnitId}
    (hunit : ∀ c ∈ visitAllCalls recompute inputs ids g r, c.completes = true →
      unit ∉ c.units.map OutputUnit.id) :
    (visitAll recompute inputs ids g r).2.producer? unit = g.producer? unit := by
  induction ids generalizing g r with
  | nil => rfl
  | cons id ids ih =>
    have hturn := visit_turn g recompute inputs id r
    rw [visitAllCalls] at hunit
    have hfirst := hturn.producer?_eq fun c hc => hunit c (List.mem_append_left _ hc)
    rw [visitAll]
    generalize g.visit recompute inputs id r = visited at hunit hfirst
    obtain ⟨_ | r₁, g₁⟩ := visited
    · exact hfirst
    · exact (ih fun c hc => hunit c (List.mem_append_right _ hc)).trans hfirst

/-- Where no node is selected, nothing happens. -/
theorem visitAll_of_unselected (inputs : InputTable) (ids : List NodeId) (r : Report)
    (h : ∀ j n, g.node? j = some n → g.selects recompute j n = false) :
    visitAll recompute inputs ids g r = (some r, g) ∧
      visitAllCalls recompute inputs ids g r = [] := by
  induction ids with
  | nil => exact ⟨rfl, rfl⟩
  | cons id ids ih =>
    obtain ⟨hcalls, hreport, hgraph⟩ :=
      (visit_turn g recompute inputs id r).eq_of_unselected (h id)
    have hvisit : g.visit recompute inputs id r = (some r, g) := Prod.ext hreport hgraph
    rw [visitAll, visitAllCalls, hvisit, hcalls]
    exact ih

/-- **Nodes that are not selected are untouched**, whether or not the walk comes to its end.  Each
of them stays as it is but for further dependents, which are nodes that completed in the walk, and
keeps its value; a unit that no completed call emitted stays with its producer; and if no node of
the set is registered, none is forced and none is to be tried again, nothing is called and nothing
changes. -/
theorem unselected_nodes_are_untouched {ids : List NodeId}
    (h : g.execute (some ids) inputs = (o, g')) :
    (∀ j n, g.node? j = some n → g.selects (some ids) j n = false →
      (∃ n', g'.node? j = some n' ∧
        n.Gains n' (CompletedIn (g.executeCalls (some ids) inputs))) ∧
      g'.value? j = g.value? j) ∧
    (∀ unit, (∀ c ∈ g.executeCalls (some ids) inputs, c.completes = true →
        unit ∉ c.units.map OutputUnit.id) → g'.producer? unit = g.producer? unit) ∧
    (∀ report, o = some report → ∀ a,
      a ∈ report.executed ↔ CompletedIn (g.executeCalls (some ids) inputs) a) ∧
    ((∀ j ∈ ids, g.contains j = false) →
      (∀ j n, g.node? j = some n → n.force = false ∧ n.wantsRetry g.defaultRetry = false) →
      g.executeCalls (some ids) inputs = [] ∧ o = some .empty ∧ g' = g) := by
  have hwalk : visitAll (some ids) inputs g.order g .empty = (o, g') := h
  refine ⟨fun j n hn hselects => ?_, fun unit hunit => ?_, fun report hreport a => ?_,
    fun hids hquiet => ?_⟩
  · have hspares := spares_visitAll (some ids) inputs g.order g .empty
      fun n' hn' => Option.some.inj (hn.symm.trans hn') ▸ hselects
    rw [hwalk] at hspares
    exact ⟨hspares.node? n hn, hspares.value?_eq⟩
  · have hproducer := producer?_visitAll hunit
    rwa [hwalk] at hproducer
  · subst hreport
    rw [(outputs_eq_completed_calls h).2, List.mem_map]
    constructor
    · rintro ⟨c, hc, hnode⟩
      exact ⟨c, (List.mem_filter.1 hc).1, (List.mem_filter.1 hc).2, hnode⟩
    · rintro ⟨c, hc, hcompletes, hnode⟩
      exact ⟨c, List.mem_filter.2 ⟨hc, hcompletes⟩, hnode⟩
  · have hunselected : ∀ j n, g.node? j = some n → g.selects (some ids) j n = false := by
      intro j n hn
      have hj : j ∉ ids := fun hj => by
        have hcontains := contains_iff.2 (mem_ids_iff.2 ⟨n, hn⟩)
        exact Bool.false_ne_true ((hids j hj).symm.trans hcontains)
      simp [selects, hj, hquiet j n hn]
    obtain ⟨hnothing, hcalls⟩ := visitAll_of_unselected inputs g.order .empty hunselected
    rw [hwalk] at hnothing
    obtain ⟨rfl, rfl⟩ := Prod.mk.inj hnothing
    exact ⟨hcalls, rfl, rfl⟩

/-- Two nodes, of which the first has run and the second is going to read it. -/
def halfRun : Except GraphError Graph :=
  ((empty none none).registerAll
    [(⟨"a"⟩, [], .constant (.bool true)), (⟨"b"⟩, [], .reading ⟨"a"⟩)]).map
      fun g => (g.execute (some [⟨"a"⟩]) []).2

/-- The theorem applies to a walk over the second of two nodes, in which the first gains a
dependent, and to a walk over a node that is not registered. -/
theorem unselected_nodes_are_untouched_of_two :
    ∃ (g : Graph) (n n' : Node), halfRun = .ok g ∧ Reachable g ∧ g.node? ⟨"a"⟩ = some n ∧
      (g.execute (some [⟨"b"⟩]) []).2.node? ⟨"a"⟩ = some n' ∧
      n.Gains n' (CompletedIn (g.executeCalls (some [⟨"b"⟩]) [])) ∧ n'.dependents ≠ n.dependents ∧
      g.execute (some [⟨"c"⟩]) [] = (some .empty, g) := by
  obtain ⟨g, hbuilt, htest⟩ := exists_built_of_any halfRun
    (fun g => (g.node? ⟨"a"⟩).any (fun n => !g.selects (some [⟨"b"⟩]) ⟨"a"⟩ n) &&
      !((g.execute (some [⟨"b"⟩]) []).2.dependentsOf ⟨"a"⟩ == g.dependentsOf ⟨"a"⟩) &&
      !g.contains ⟨"c"⟩ &&
      g.nodes.all fun e => !e.2.force && !e.2.wantsRetry g.defaultRetry) (by cbv)
  simp only [Bool.and_eq_true, Option.any_eq_true, Bool.not_eq_true', beq_eq_false_iff_ne,
    List.all_eq_true] at htest
  obtain ⟨⟨⟨⟨n, hn, hselects⟩, hgains⟩, habsent⟩, hquiet⟩ := htest
  have hg : Reachable g := by
    rw [halfRun] at hbuilt
    obtain ⟨g₀, hreg, rfl⟩ := exists_of_map hbuilt
    exact (Reachable.registerAll (.empty none none) hreg).execute _ []
  have hwalk : g.execute (some [⟨"b"⟩]) [] = (_, (g.execute (some [⟨"b"⟩]) []).2) := rfl
  have hwalk' : g.execute (some [⟨"c"⟩]) [] = (_, (g.execute (some [⟨"c"⟩]) []).2) := rfl
  obtain ⟨⟨n', hn', hsame⟩, -⟩ := (unselected_nodes_are_untouched hwalk).1 _ n hn hselects
  obtain ⟨-, -, -, hnothing⟩ := unselected_nodes_are_untouched hwalk'
  obtain ⟨-, hreport, hgraph⟩ := hnothing (by simpa using habsent)
    fun j n hn => hquiet (j, n) (Table.mem_of_get? hn)
  refine ⟨g, n, n', hbuilt, hg, hn, hn', hsame, ?_, Prod.ext hreport hgraph⟩
  rwa [dependentsOf_eq hn, dependentsOf_eq hn'] at hgains

end Graph

end ReactiveScript

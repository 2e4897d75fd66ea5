import Mathlib
import ReactiveScript.Proofs.Graph.Affected
import ReactiveScript.Proofs.Graph.GlitchFree

/-!
# Which reads become edges

A body may read the stored value of any node.  What a completed call has read becomes a dependency of
its node when the walk goes on, unless that would close a cycle; so a change of what was read affects
the node.  Only completed calls count: what a failed attempt has read is forgotten, even if it is the
reason for the failure.

* `Graph.WellFormed.edge_or_cycle_of_recordReads` — recording reads makes each an edge, or finds a
  cycle.
* `Graph.reads_of_completed_calls_are_edges` — the edges after a walk.
* `Graph.failed_read_is_no_edge` — a node that failed over what it read is not affected by it.
-/

set_option autoImplicit false

namespace ReactiveScript

namespace Graph

open Relation

variable {g g' : Graph} {recompute : Option (List NodeId)} {inputs : InputTable} {id d : NodeId}
  {r r' : Report}

/-! ## One record of reads -/

/-- What a record of reads adds for one of them: an edge, or the finding that it would close a
cycle. -/
theorem WellFormed.edge_or_cycle_of_recordReads_singleton (hg : g.WellFormed) (hid : id ∈ g.ids)
    (hd : d ∈ g.ids) : (g.recordReads id [d]).DependsOn id d ∨
      ReflTransGen (g.recordReads id [d]).DependsOn d id := by
  obtain ⟨n, hn⟩ := mem_ids_iff.1 hid
  have hplaced : g.withPlaceholders [d] = g := by
    rw [Graph.withPlaceholders, if_pos (contains_iff.2 hd), Graph.withPlaceholders]
  rw [recordReads, List.foldl_cons, List.foldl_nil, contains_iff.2 hd]
  simp only [Bool.not_true, Bool.false_eq_true, if_false]
  split
  · rename_i isNew g₁ hadd
    obtain ⟨m, hm, -, -, ⟨-, hold, rfl⟩ | ⟨-, -, rfl⟩⟩ := addDependency_cases hadd
    · refine Or.inl ?_
      rwa [hplaced, DependsOn, dependenciesOf_eq hm]
    · refine Or.inl ?_
      rw [hplaced, DependsOn, dependenciesOf_withEdge hid, if_pos rfl]
      exact NodeId.mem_insert.2 (Or.inl rfl)
  · rename_i e hadd
    rw [Graph.addDependency, hn] at hadd
    simp only at hadd
    split at hadd
    · rename_i hcycle
      refine Or.inr ?_
      rcases hcycle with rfl | hcycle
      · exact .refl
      · obtain ⟨c, hc, -, hdc⟩ := hg.mem_affected_iff.1 hcycle
        rwa [List.mem_singleton.1 hc] at hdc
    · split at hadd <;> cases hadd

/-- **Recording reads makes each of them an edge, unless that would close a cycle.** -/
theorem WellFormed.edge_or_cycle_of_recordReads (hg : g.WellFormed) (hid : id ∈ g.ids)
    {reads : List NodeId} (hread : d ∈ reads) (hd : d ∈ g.ids) :
    (g.recordReads id reads).DependsOn id d ∨
      ReflTransGen (g.recordReads id reads).DependsOn d id := by
  induction reads generalizing g with
  | nil => cases hread
  | cons read reads ih =>
    have hfirst := (recorded_recordReads g id [read]).keeps
    have hrest := (recorded_recordReads (g.recordReads id [read]) id reads).keeps
    show ((g.recordReads id [read]).recordReads id reads).DependsOn id d ∨ _
    rcases List.mem_cons.1 hread with rfl | hread
    · exact (hg.edge_or_cycle_of_recordReads_singleton hid hd).imp hrest.dependsOn
        (ReflTransGen.mono (fun _ _ => hrest.dependsOn) _ _)
    · exact ih (hfirst.wellFormed hg) (hfirst.ids_eq ▸ hid) hread (hfirst.ids_eq ▸ hd)

/-- What a completed run stores makes no difference to the edges. -/
theorem dependsOn_complete (g : Graph) (id : NodeId) (v : Value) (f : Footprint) :
    (g.complete id v f).DependsOn = (g.recordReads id f.reads).DependsOn := by
  funext a b
  rw [complete, DependsOn, dependenciesOf_update _ _ _ (Node.HistoryOnly.completed _).dependencies_eq]
  rfl

/-! ## The turn of a node -/

/-- What a completed call of a turn has read is a dependency after it, or depends on the node. -/
theorem Turn.edge_or_cycle {calls : List Call} {o : Option Report}
    (h : Turn g recompute inputs id r calls o g') (hg : g.WellFormed) {c : Call} (hc : c ∈ calls)
    (hcompletes : c.completes = true) (hread : d ∈ c.outcome.footprint.reads) (hd : d ∈ g.ids) :
    g'.DependsOn id d ∨ ReflTransGen g'.DependsOn d id := by
  obtain ⟨v, hv⟩ := Call.completes_iff.1 hcompletes
  cases h with
  | skipped => cases hc
  | blocked => cases hc
  | @ran n _ _ _ hn _ _ _ _ hattempted =>
    cases hattempted with
    | @completed f failures visit _ _ hf hfailures _ _ _ =>
      rcases List.mem_append.1 hc with hc | hc
      · exact absurd hv (hfailures c hc v)
      · obtain rfl := List.mem_singleton.1 hc
        have hupdated := Keeps.update hf g id
        rw [dependsOn_complete]
        exact (hupdated.wellFormed hg).edge_or_cycle_of_recordReads
          (hupdated.ids_eq ▸ mem_ids_iff.2 ⟨n, hn⟩) hread (hupdated.ids_eq ▸ hd)
    | failed _ _ hfailures => exact absurd hv (hfailures c hc v)
    | crashed _ hfailures => exact absurd hv (hfailures c hc v)

/-- A dependency that is new after a turn has been read by a completed call of the node. -/
theorem Turn.exists_call_of_dependsOn {calls : List Call} {o : Option Report}
    (h : Turn g recompute inputs id r calls o g') {a b : NodeId} (hab : g'.DependsOn a b) :
    g.DependsOn a b ∨ ∃ c ∈ calls, c.completes = true ∧ c.visit.node = a ∧
      b ∈ c.outcome.footprint.reads := by
  by_cases ha : a = id
  · subst ha
    have hupdate : ∀ {f : Node → Node}, Node.HistoryOnly f → (g.update a f).DependsOn a b →
        g.DependsOn a b := by
      intro f hf hab
      rwa [DependsOn, dependenciesOf_update g a a hf.dependencies_eq] at hab
    cases h with
    | skipped => exact Or.inl hab
    | blocked => exact Or.inl (hupdate (.comp .settle (.blocked _)) hab)
    | @ran n _ _ _ hn _ _ _ _ hattempted =>
      cases hattempted with
      | @completed f failures visit v _ hf _ hvisit hresult _ =>
        obtain ⟨call, rfl⟩ := hvisit
        have hfn : (g.update a f).node? a = some (f n) := by
          rw [node?_update, if_pos rfl, hn]
          rfl
        obtain ⟨ds, hds, hsub⟩ := node?_complete hfn v
          (n.body (g.visitOf inputs a (g.arguments n.params) call)).footprint
        rw [DependsOn, dependenciesOf_eq hds] at hab
        refine (hsub b hab).imp (fun hold => ?_) fun hread => ?_
        · rw [hf.dependencies_eq] at hold
          rwa [DependsOn, dependenciesOf_eq hn]
        · exact ⟨_, List.mem_append_right _ (List.mem_singleton_self _),
            Call.completes_iff.2 ⟨v, hresult⟩, rfl, hread⟩
      | failed hf => exact Or.inl (hupdate hf hab)
      | crashed hf => exact Or.inl (hupdate hf hab)
  · rw [DependsOn, h.keeps.dependenciesOf_eq ha] at hab
    exact Or.inl hab

/-! ## A walk -/

/-- A dependency that is new after a walk has been read by a completed call of the node. -/
theorem exists_call_of_dependsOn {ids : List NodeId}
    (h : visitAll recompute inputs ids g r = (some r', g')) {a b : NodeId}
    (hab : g'.DependsOn a b) : g.DependsOn a b ∨
      ∃ c ∈ visitAllCalls recompute inputs ids g r, c.completes = true ∧ c.visit.node = a ∧
        b ∈ c.outcome.footprint.reads := by
  induction ids generalizing g r with
  | nil =>
    cases h
    exact Or.inl hab
  | cons id ids ih =>
    obtain ⟨r₁, g₁, hvisit, hrest⟩ := visitAll_cons h
    have hturn := visit_turn g recompute inputs id r
    rw [hvisit] at hturn
    rw [visitAllCalls, hvisit]
    rcases ih hrest with hab | ⟨c, hc, hread⟩
    · rcases hturn.exists_call_of_dependsOn hab with hab | ⟨c, hc, hread⟩
      · exact Or.inl hab
      · exact Or.inr ⟨c, List.mem_append_left _ hc, hread⟩
    · exact Or.inr ⟨c, List.mem_append_right _ hc, hread⟩

/-- **The reads of completed calls become edges, and no other reads do.**  When a walk returns, every
registered node that a completed call has read is a dependency of its node, so that a change of it
affects the node, unless it depends on the node itself.  A dependency that the node did not have
before has been read by a completed call. -/
theorem reads_of_completed_calls_are_edges (hg : Reachable g) {report : Report}
    (hexecute : g.execute recompute inputs = (some report, g')) :
    (∀ c ∈ g.executeCalls recompute inputs, c.completes = true →
      ∀ s ∈ c.outcome.footprint.reads, s ∈ g.ids →
        (g'.DependsOn c.visit.node s ∧ c.visit.node ∈ g'.affected [s]) ∨
          ReflTransGen g'.DependsOn s c.visit.node) ∧
      ∀ a b, g'.DependsOn a b → g.DependsOn a b ∨
        ∃ c ∈ g.executeCalls recompute inputs, c.completes = true ∧ c.visit.node = a ∧
          b ∈ c.outcome.footprint.reads := by
  have hwell := hg.wellFormed
  have hwell' := wellFormed_visitAll recompute inputs g.order hwell .empty
  have hlater := later_execute hexecute
  refine ⟨fun c hc hcompletes s hread hs => ?_, fun a b hab => exists_call_of_dependsOn hexecute hab⟩
  obtain ⟨before, id, after, r₁, g₁, r₂, g₂, -, hbefore, hvisit, hafter, hc⟩ :=
    exists_turn_of_mem_visitAllCalls hexecute hc
  rw [execute] at hexecute
  rw [hexecute] at hwell'
  have hearlier := later_visitAll recompute inputs before g .empty
  have hwell₁ := wellFormed_visitAll recompute inputs before hwell .empty
  rw [hbefore] at hearlier hwell₁
  have hrest := later_visitAll recompute inputs after g₂ r₂
  rw [hafter] at hrest
  have hturn := visit_turn g₁ recompute inputs id r₁
  rw [hvisit] at hturn
  obtain ⟨v, hv⟩ := Call.completes_iff.1 hcompletes
  obtain ⟨n, call, -, -, hcall, -⟩ := hturn.completed_call hc hv
  have hnode : c.visit.node = id := by rw [hcall]; rfl
  rw [hnode]
  refine (hturn.edge_or_cycle hwell₁ hc hcompletes hread (hearlier.ids_eq ▸ hs)).imp
    (fun hedge => ?_) (ReflTransGen.mono (fun a b => hrest.dependsOn a b) _ _)
  have hedge : g'.DependsOn id s := hrest.dependsOn id s hedge
  exact ⟨hedge, hwell'.mem_affected_iff.2
    ⟨s, List.mem_singleton_self s, hlater.ids_eq ▸ hs, .single hedge⟩⟩

end Graph

/-! ## Reads of calls that complete and of calls that fail -/

/-- A body that reads a node and fails. -/
def Body.failingOver (id : NodeId) (message : String) : Body := fun visit =>
  ⟨.error (.custom message), ((Footprint.start visit).read visit id).2⟩

namespace Graph

open Relation

/-- Two nodes, of which the second reads the first without having declared it. -/
def undeclaredRead : Except GraphError Graph :=
  (empty none none).registerAll
    [(⟨"a"⟩, [], .constant (.bool true)), (⟨"b"⟩, [], .reading ⟨"a"⟩)]

/-- Two nodes, of which the second reads the first and fails. -/
def failedRead : Except GraphError Graph :=
  (empty none none).registerAll
    [(⟨"a"⟩, [], .constant (.bool true)), (⟨"b"⟩, [], .failingOver ⟨"a"⟩ "no")]

/-- The theorem applies to a node that reads another one without having declared it. -/
theorem reads_of_completed_calls_are_edges_of_two : ∃ (g g' : Graph) (report : Report),
    Reachable g ∧ g.execute none [] = (some report, g') ∧ ¬ g.DependsOn ⟨"b"⟩ ⟨"a"⟩ ∧
      g'.DependsOn ⟨"b"⟩ ⟨"a"⟩ ∧ ⟨"b"⟩ ∈ g'.affected [⟨"a"⟩] := by
  obtain ⟨g, report, g', c, hbuilt, hexecute, hc, htest⟩ :=
    exists_call_of_any undeclaredRead
      (fun g g' c => c.completes && decide (c.visit.node = ⟨"b"⟩) &&
        decide (⟨"a"⟩ ∈ c.outcome.footprint.reads) && decide (⟨"a"⟩ ∈ g.ids) &&
        decide (⟨"a"⟩ ∉ g.dependenciesOf ⟨"b"⟩) && decide (g'.dependenciesOf ⟨"a"⟩ = [])) (by cbv)
  simp only [Bool.and_eq_true, decide_eq_true_eq] at htest
  obtain ⟨⟨⟨⟨⟨hcompletes, hnode⟩, hread⟩, hregistered⟩, hnot⟩, hnone⟩ := htest
  have hg : Reachable g := Reachable.registerAll (.empty none none) hbuilt
  have hedge := (reads_of_completed_calls_are_edges hg hexecute).1 c hc hcompletes _ hread hregistered
  rw [hnode] at hedge
  refine ⟨g, g', report, hg, hexecute, hnot, hedge.resolve_right fun hcycle => ?_⟩
  -- The first node depends on nothing, so no edge closes a cycle.
  rcases hcycle.cases_head with heq | ⟨x, hx, -⟩
  · exact absurd heq (by decide)
  · rw [DependsOn, hnone] at hx
    cases hx

/-- **What a failed attempt has read is forgotten.**  It need not become an edge when the walk
returns, not even if no cycle is in the way; and a node that has failed over what it read is not
affected by it. -/
theorem failed_read_is_no_edge : ¬ ∀ (g g' : Graph) (report : Report), Reachable g →
    g.execute none [] = (some report, g') → ∀ c ∈ g.executeCalls none [],
      ∀ s ∈ c.outcome.footprint.reads, s ∈ g.ids →
        (g'.DependsOn c.visit.node s ∧ c.visit.node ∈ g'.affected [s]) ∨
          ReflTransGen g'.DependsOn s c.visit.node := by
  intro hreadsCount
  obtain ⟨g, report, g', c, hbuilt, hexecute, hc, htest⟩ :=
    exists_call_of_any failedRead
      (fun g g' c => decide (c.visit.node = ⟨"b"⟩) &&
        decide (⟨"a"⟩ ∈ c.outcome.footprint.reads) && decide (⟨"a"⟩ ∈ g.ids) &&
        decide (⟨"b"⟩ ∉ g'.affected [⟨"a"⟩]) && decide (g'.dependenciesOf ⟨"a"⟩ = [])) (by cbv)
  simp only [Bool.and_eq_true, decide_eq_true_eq] at htest
  obtain ⟨⟨⟨⟨hnode, hread⟩, hregistered⟩, hnot⟩, hnone⟩ := htest
  have hg : Reachable g := Reachable.registerAll (.empty none none) hbuilt
  rcases hreadsCount g g' report hg hexecute c hc _ hread hregistered with ⟨-, haffected⟩ | hcycle
  · exact hnot (hnode ▸ haffected)
  · rw [hnode] at hcycle
    rcases hcycle.cases_head with heq | ⟨x, hx, -⟩
    · exact absurd heq (by decide)
    · rw [DependsOn, hnone] at hx
      cases hx

end Graph

end ReactiveScript

import Mathlib.Logic.Function.Iterate
import ReactiveScript.Proofs.Graph.GlitchFree

/-!
# The search along dependents

`Graph.affected` takes nodes from the front of a queue and puts their dependents at its end.  One
such turn is `Graph.searchStep`.  Every turn uses up one id that was asked for or one edge, so the
queue runs empty after as many turns as there are of both, whatever is on it: ids that come twice,
ids that are not registered.

* `Graph.outstanding` — how many turns a search has left at most; each turn uses up one.
* `Graph.iterate_searchStep` — after that many turns the queue is empty and the search is over.
* `Graph.affected_is_forward_closure` — the search ends, and finds the nodes that it is given and
  those that depend on one of them.
-/

set_option autoImplicit false

namespace ReactiveScript

namespace Graph

open Relation

variable {g : Graph}

/-! ## The turns of a search -/

/-- One turn of the search: what is visited so far, and the queue. -/
def searchStep (g : Graph) : List NodeId × List NodeId → List NodeId × List NodeId
  | (visited, []) => (visited, [])
  | (visited, id :: queue) =>
    match g.node? id with
    | none => (visited, queue)
    | some n =>
      if id ∈ visited then (visited, queue) else (NodeId.insert id visited, queue ++ n.dependents)

/-- How many edges lead to the nodes of a list. -/
def edgesInto (g : Graph) (ids : List NodeId) : Nat :=
  (ids.map fun id => (g.dependentsOf id).length).sum

/-- The number of edges. -/
def edgeCount (g : Graph) : Nat := g.edgesInto g.ids

/-- How many turns a search has left at most: what is on the queue, and the edges that it may still
follow. -/
def outstanding (g : Graph) (visited queue : List NodeId) : Nat :=
  queue.length + g.edgesInto (g.unvisited visited)

theorem edgesInto_le_of_sublist {ids ids' : List NodeId} (h : ids.Sublist ids') :
    g.edgesInto ids ≤ g.edgesInto ids' :=
  (h.map fun id => (g.dependentsOf id).length).sum_le_sum fun _ _ => Nat.zero_le _

/-- Dropping a node from a list drops the edges that lead to it. -/
theorem edgesInto_filter_le {p q : NodeId → Bool} {a : NodeId} (hqp : ∀ b, q b = true → p b = true)
    (hp : p a = true) (hq : q a = false) {ids : List NodeId} (ha : a ∈ ids) :
    g.edgesInto (ids.filter q) + (g.dependentsOf a).length ≤ g.edgesInto (ids.filter p) := by
  induction ids with
  | nil => simp at ha
  | cons b ids ih =>
    rcases List.mem_cons.1 ha with rfl | ha
    · have hrest := edgesInto_le_of_sublist (g := g) (List.monotone_filter_right ids hqp)
      simp only [edgesInto] at hrest ⊢
      simp [hp, hq]
      omega
    · have hrest := ih ha
      simp only [edgesInto] at hrest ⊢
      by_cases hb : q b = true
      · simp [hb, hqp b hb]
        omega
      · by_cases hb' : p b = true <;> simp [hb, hb'] <;> omega

theorem edgesInto_insert_le {id : NodeId} {n : Node} {visited : List NodeId}
    (hn : g.node? id = some n) (hid : id ∉ visited) :
    g.edgesInto (g.unvisited (NodeId.insert id visited)) + n.dependents.length
      ≤ g.edgesInto (g.unvisited visited) := by
  rw [← dependentsOf_eq hn]
  refine edgesInto_filter_le (fun b hb => ?_) ?_ ?_ (mem_ids_iff.2 ⟨n, hn⟩)
  · simp only [Bool.not_eq_true', List.contains_eq_mem, decide_eq_false_iff_not, NodeId.mem_insert,
      not_or] at hb ⊢
    exact hb.2
  · simpa using hid
  · simp [NodeId.mem_insert]

/-- A search whose turns are enough for what is outstanding comes to its end. -/
theorem iterate_searchStep {visited queue : List NodeId} {turns : Nat}
    (h : g.outstanding visited queue ≤ turns) :
    g.searchStep^[turns] (visited, queue) = (g.reach visited queue, []) := by
  fun_induction g.reach visited queue generalizing turns with
  | case1 visited =>
    -- An empty queue stays empty.
    exact Function.iterate_fixed rfl turns
  | case2 visited id queue hn ih =>
    simp only [outstanding, List.length_cons] at h ih
    obtain ⟨turns, rfl⟩ : ∃ k, turns = k + 1 := ⟨turns - 1, by omega⟩
    rw [Function.iterate_succ_apply, searchStep, hn]
    exact ih (by omega)
  | case3 visited id queue n hn hv ih =>
    simp only [outstanding, List.length_cons] at h ih
    obtain ⟨turns, rfl⟩ : ∃ k, turns = k + 1 := ⟨turns - 1, by omega⟩
    rw [Function.iterate_succ_apply, searchStep, hn]
    simp only [if_pos hv]
    exact ih (by omega)
  | case4 visited id queue n hn hv ih =>
    have hedges := edgesInto_insert_le hn hv
    simp only [outstanding, List.length_cons, List.length_append] at h ih
    obtain ⟨turns, rfl⟩ : ∃ k, turns = k + 1 := ⟨turns - 1, by omega⟩
    rw [Function.iterate_succ_apply, searchStep, hn]
    simp only [if_neg hv]
    exact ih (by omega)

/-- What has been visited is a set at every turn. -/
theorem sorted_reach {visited queue : List NodeId} (h : NodeId.Sorted visited) :
    NodeId.Sorted (g.reach visited queue) := by
  fun_induction g.reach visited queue with
  | case1 visited => exact h
  | case2 visited id queue hn ih => exact ih h
  | case3 visited id queue n hn hv ih => exact ih h
  | case4 visited id queue n hn hv ih => exact ih h.insert

/-! ## What the search finds -/

/-- **The nodes that are affected are the forward closure of those that have changed.**  The search
ends after one turn for each id that it is given and each edge at most, and returns the set of the
registered nodes that are among the registered ones it is given, or depend on one of them directly
or through others. -/
theorem affected_is_forward_closure (hg : Reachable g) (changed : List NodeId) :
    g.searchStep^[changed.length + g.edgeCount] ([], changed) = (g.affected changed, []) ∧
    NodeId.Sorted (g.affected changed) ∧
    ∀ n, n ∈ g.affected changed ↔
      n ∈ g.ids ∧ ∃ c ∈ changed, c ∈ g.ids ∧ (c = n ∨ TransGen g.DependsOn n c) := by
  have hwell := hg.wellFormed
  refine ⟨iterate_searchStep ?_, sorted_reach List.Pairwise.nil, fun n => ?_⟩
  · -- Nothing is visited in the beginning.
    simp [outstanding, edgeCount, unvisited]
  · rw [hwell.mem_affected_iff]
    constructor
    · rintro ⟨c, hc, hcid, hnc⟩
      rcases reflTransGen_iff_eq_or_transGen.1 hnc with heq | hlt
      · exact ⟨heq ▸ hcid, c, hc, hcid, Or.inl heq⟩
      · exact ⟨(hwell.mem_ids_of_transGen hlt).1, c, hc, hcid, Or.inr hlt⟩
    · rintro ⟨-, c, hc, hcid, heq | hlt⟩
      · exact ⟨c, hc, hcid, heq ▸ .refl⟩
      · exact ⟨c, hc, hcid, hlt.to_reflTransGen⟩

/-- Four nodes, of which one depends on another and a third on that one. -/
def linkedNodes : Except GraphError Graph :=
  (empty none none).registerAll
    [(⟨"a"⟩, [], .constant .null), (⟨"b"⟩, [⟨"a"⟩], .constant .null),
      (⟨"c"⟩, [⟨"b"⟩], .constant .null), (⟨"d"⟩, [], .constant .null)]

/-- The theorem applies to a node that is asked for twice, with one that is not registered in
between: the search finds the node and the one that depends on it. -/
theorem affected_is_forward_closure_of_repeats :
    ∃ g, linkedNodes = .ok g ∧ Reachable g ∧ ⟨"z"⟩ ∉ g.ids ∧
      g.affected [⟨"b"⟩, ⟨"z"⟩, ⟨"b"⟩] = [⟨"b"⟩, ⟨"c"⟩] ∧ TransGen g.DependsOn ⟨"c"⟩ ⟨"b"⟩ := by
  obtain ⟨g, hbuilt, htest⟩ := exists_built_of_any linkedNodes
    (fun g => !g.contains ⟨"z"⟩ &&
      (g.searchStep^[3 + g.edgeCount] ([], [⟨"b"⟩, ⟨"z"⟩, ⟨"b"⟩])).1 == [⟨"b"⟩, ⟨"c"⟩]) (by cbv)
  simp only [Bool.and_eq_true, Bool.not_eq_true', beq_iff_eq] at htest
  have hg : Reachable g := Reachable.registerAll (.empty none none) hbuilt
  have habsent : ⟨"z"⟩ ∉ g.ids := fun hid => by simp [contains_iff.2 hid] at htest
  obtain ⟨hends, -, hfinds⟩ := affected_is_forward_closure hg [⟨"b"⟩, ⟨"z"⟩, ⟨"b"⟩]
  have hfound : g.affected [⟨"b"⟩, ⟨"z"⟩, ⟨"b"⟩] = [⟨"b"⟩, ⟨"c"⟩] := by
    rw [← htest.2]
    exact (congrArg Prod.fst hends).symm
  refine ⟨g, hbuilt, hg, habsent, hfound, ?_⟩
  obtain ⟨-, c, hc, hcid, hlt⟩ := (hfinds ⟨"c"⟩).1 (by simp [hfound])
  simp only [List.mem_cons, List.not_mem_nil, or_false] at hc
  rcases hc with rfl | rfl | rfl
  · exact hlt.resolve_left (by decide)
  · exact absurd hcid habsent
  · exact hlt.resolve_left (by decide)

end Graph

end ReactiveScript

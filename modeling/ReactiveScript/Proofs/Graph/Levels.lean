import Mathlib.Data.List.Nodup
import ReactiveScript.Proofs.Graph.GlitchFree

/-!
# Levels are longest chains

`Graph.levels` finds the level of a node in one pass over the order of execution, from the levels of
those nodes that have been passed.  This gives every node the number of edges of the longest chain
of dependencies that ends at it, because a dependency is always passed before its dependents.

* `Graph.ChainTo`, `Graph.IsDepth` — chains of dependencies, and the length of the longest one.
* `Graph.Lists.isDepth_depths` — the pass, from any place of the order on.
* `Graph.levels_are_longest_chains` — the levels of a graph.
-/

set_option autoImplicit false

namespace ReactiveScript

namespace Graph

open Relation

variable {g : Graph} {n : Nat} {a b : NodeId}

/-! ## Chains of dependencies -/

/-- A chain with some number of edges ends at a node, each node of the chain depending on the one
before it. -/
inductive ChainTo (g : Graph) : Nat → NodeId → Prop
  /-- The chain starts at a node. -/
  | start {a : NodeId} : a ∈ g.ids → ChainTo g 0 a
  /-- It goes on to a node that depends on the last one. -/
  | step {n : Nat} {a b : NodeId} : g.DependsOn b a → ChainTo g n a → ChainTo g (n + 1) b

/-- The longest chain that ends at a node has some number of edges. -/
structure IsDepth (g : Graph) (n : Nat) (a : NodeId) : Prop where
  /-- There is such a chain. -/
  chainTo : g.ChainTo n a
  /-- No chain is longer. -/
  le_of_chainTo : ∀ k, g.ChainTo k a → k ≤ n

theorem ChainTo.mem_ids (h : g.ChainTo n a) : a ∈ g.ids := by
  cases h with
  | start ha => exact ha
  | step hab _ => exact mem_ids_of_mem_dependenciesOf hab

/-- A chain goes on along any path to a node that depends on its end. -/
theorem ChainTo.exists_longer (h : g.ChainTo n b) (hab : TransGen g.DependsOn a b) :
    ∃ k, n < k ∧ g.ChainTo k a := by
  induction hab using TransGen.head_induction_on with
  | single hab => exact ⟨n + 1, n.lt_succ_self, .step hab h⟩
  | head hac _ ih =>
    obtain ⟨k, hlt, hk⟩ := ih
    exact ⟨k + 1, Nat.lt_succ_of_lt hlt, .step hac hk⟩

namespace IsDepth

theorem unique {k : Nat} (h : g.IsDepth n a) (h' : g.IsDepth k a) : n = k :=
  Nat.le_antisymm (h'.le_of_chainTo n h.chainTo) (h.le_of_chainTo k h'.chainTo)

/-- What a node depends on, directly or not, is less deep. -/
theorem lt {k : Nat} (h : g.IsDepth n a) (h' : g.IsDepth k b) (hab : TransGen g.DependsOn a b) :
    k < n := by
  obtain ⟨j, hlt, hj⟩ := h'.chainTo.exists_longer hab
  exact Nat.lt_of_lt_of_le hlt (h.le_of_chainTo j hj)

/-- A node that is not at the start has a dependency that is one edge less deep. -/
theorem exists_dependency (h : g.IsDepth (n + 1) b) : ∃ a, g.DependsOn b a ∧ g.IsDepth n a := by
  cases h.chainTo with
  | step hba ha =>
    exact ⟨_, hba, ha, fun k hk => Nat.le_of_succ_le_succ (h.le_of_chainTo _ (.step hba hk))⟩

/-- Every lesser depth occurs as well. -/
theorem exists_of_le {k : Nat} (h : g.IsDepth n a) (hk : k ≤ n) : ∃ b, g.IsDepth k b := by
  induction n generalizing a with
  | zero => exact ⟨a, Nat.le_zero.1 hk ▸ h⟩
  | succ n ih =>
    rcases Nat.of_le_succ hk with hk | rfl
    · obtain ⟨b, -, hb⟩ := h.exists_dependency
      exact ih hb hk
    · exact ⟨a, h⟩

end IsDepth

/-! ## One pass over the order -/

theorem lt_above_of_mem {ns : List Nat} (h : n ∈ ns) : n < above ns := by
  induction ns with
  | nil => cases h
  | cons k ns ih =>
    show n < max (k + 1) (above ns)
    rcases List.mem_cons.1 h with rfl | h
    · exact lt_max_of_lt_left n.lt_succ_self
    · exact lt_max_of_lt_right (ih h)

theorem above_eq_zero_or (ns : List Nat) : above ns = 0 ∨ ∃ n ∈ ns, above ns = n + 1 := by
  induction ns with
  | nil => exact Or.inl rfl
  | cons k ns ih =>
    refine Or.inr ?_
    show ∃ n ∈ k :: ns, max (k + 1) (above ns) = n + 1
    rcases ih with hzero | ⟨n, hn, hsucc⟩
    · exact ⟨k, List.mem_cons_self, by rw [hzero, Nat.max_zero]⟩
    · rcases Nat.le_total (k + 1) (above ns) with hle | hle
      · exact ⟨n, List.mem_cons_of_mem _ hn, (max_eq_right hle).trans hsucc⟩
      · exact ⟨k, List.mem_cons_self, max_eq_left hle⟩

/-- If the depths of all its dependencies have been found, a node is one edge deeper than the
deepest of them. -/
theorem isDepth_above {found : Table NodeId Nat} (ha : a ∈ g.ids)
    (hsub : g.dependenciesOf a ⊆ Table.keys found) (hfound : ∀ e ∈ found, g.IsDepth e.2 e.1) :
    g.IsDepth (above ((g.dependenciesOf a).filterMap (Table.get? · found))) a where
  chainTo := by
    rcases above_eq_zero_or ((g.dependenciesOf a).filterMap (Table.get? · found)) with
      hzero | ⟨n, hn, hsucc⟩
    · exact hzero ▸ .start ha
    · obtain ⟨d, hd, hget⟩ := List.mem_filterMap.1 hn
      exact hsucc ▸ .step hd (hfound _ (Table.mem_of_get? hget)).chainTo
  le_of_chainTo k hk := by
    cases hk with
    | start _ => exact Nat.zero_le _
    | step hd hk =>
      obtain ⟨n, hget⟩ := Table.exists_get?_of_mem_keys (hsub hd)
      refine Nat.lt_of_le_of_lt ((hfound _ (Table.mem_of_get? hget)).le_of_chainTo _ hk) ?_
      exact lt_above_of_mem (List.mem_filterMap.2 ⟨_, hd, hget⟩)

/-- **What the pass finds is the depth of every node that it passes.** -/
theorem Lists.isDepth_depths {found : Table NodeId Nat} {ids : List NodeId}
    (h : g.Lists (Table.keys found) ids) (hfound : ∀ e ∈ found, g.IsDepth e.2 e.1) :
    Table.keys (g.depths found ids) = Table.keys found ++ ids ∧
      ∀ e ∈ g.depths found ids, g.IsDepth e.2 e.1 := by
  induction ids generalizing found with
  | nil => exact ⟨(List.append_nil _).symm, hfound⟩
  | cons id ids ih =>
    cases h with
    | cons hready _ hrest =>
      have hdepth := isDepth_above hready.mem_ids hready.dependencies_subset hfound
      rw [depths, Table.put_of_not_mem hready.not_mem]
      generalize above _ = k at hdepth ⊢
      have hkeys : Table.keys (found ++ [(id, k)]) = Table.keys found ++ [id] := List.map_append
      obtain ⟨hdone, hall⟩ := ih (hkeys ▸ hrest)
        (List.forall_mem_append.2 ⟨hfound, List.forall_mem_singleton.2 hdepth⟩)
      refine ⟨?_, hall⟩
      rw [hdone, hkeys, List.append_assoc, List.singleton_append]

/-! ## Levels -/

/-- The depths of all nodes, in the order of execution. -/
theorem WellFormed.isDepth_depths (h : g.WellFormed) :
    Table.keys (g.depths [] g.order) = g.order ∧ ∀ e ∈ g.depths [] g.order, g.IsDepth e.2 e.1 :=
  have hlists : g.Lists (Table.keys ([] : Table NodeId Nat)) g.order := h.lists_order
  hlists.isDepth_depths nofun

/-- Every node has been given its depth, and nothing else. -/
theorem WellFormed.mem_depths_iff (h : g.WellFormed) :
    (a, n) ∈ g.depths [] g.order ↔ g.IsDepth n a := by
  obtain ⟨hkeys, hdepths⟩ := h.isDepth_depths
  refine ⟨fun hmem => hdepths _ hmem, fun hn => ?_⟩
  have ha : a ∈ Table.keys (g.depths [] g.order) := by
    rw [hkeys]
    exact h.mem_order_iff.2 hn.chainTo.mem_ids
  obtain ⟨k, hget⟩ := Table.exists_get?_of_mem_keys ha
  have hmem := Table.mem_of_get? hget
  rwa [hn.unique (hdepths _ hmem)]

/-- A node is in the level with some number. -/
def AtLevel (g : Graph) (n : Nat) (a : NodeId) : Prop := ∃ l, g.levels[n]? = some l ∧ a ∈ l

theorem getElem?_levels {l : List NodeId} (hl : g.levels[n]? = some l) :
    n < above (Table.values (g.depths [] g.order)) ∧
      l = ((g.depths [] g.order).filter fun e => e.2 == n).map Prod.fst := by
  rw [levels, List.getElem?_map, Option.map_eq_some_iff] at hl
  obtain ⟨k, hk, rfl⟩ := hl
  obtain ⟨hlt, rfl⟩ := List.getElem?_eq_some_iff.1 hk
  rw [List.length_range] at hlt
  rw [List.getElem_range]
  exact ⟨hlt, rfl⟩

theorem WellFormed.mem_level_iff (h : g.WellFormed) {l : List NodeId}
    (hl : g.levels[n]? = some l) : a ∈ l ↔ g.IsDepth n a := by
  rw [(getElem?_levels hl).2, ← h.mem_depths_iff]
  simp

theorem WellFormed.atLevel_iff (h : g.WellFormed) : g.AtLevel n a ↔ g.IsDepth n a := by
  constructor
  · rintro ⟨l, hl, ha⟩
    exact (h.mem_level_iff hl).1 ha
  · intro hn
    have hvalue : n ∈ Table.values (g.depths [] g.order) :=
      List.mem_map.2 ⟨(a, n), h.mem_depths_iff.2 hn, rfl⟩
    have hlt : n < g.levels.length := by
      rw [levels, List.length_map, List.length_range]
      exact lt_above_of_mem hvalue
    have hl := List.getElem?_eq_getElem hlt
    exact ⟨_, hl, (h.mem_level_iff hl).2 hn⟩

/-- A level keeps the order of execution. -/
theorem WellFormed.sublist_order (h : g.WellFormed) {l : List NodeId} (hl : l ∈ g.levels) :
    l.Sublist g.order := by
  obtain ⟨n, hn⟩ := List.mem_iff_getElem?.1 hl
  rw [(getElem?_levels hn).2]
  have hsub : (((g.depths [] g.order).filter fun e => e.2 == n).map Prod.fst).Sublist
      (Table.keys (g.depths [] g.order)) := List.filter_sublist.map _
  rwa [h.isDepth_depths.1] at hsub

/-- The deepest node is in the last level, and every lesser depth occurs. -/
theorem WellFormed.ne_nil_of_mem_levels (h : g.WellFormed) {l : List NodeId} (hl : l ∈ g.levels) :
    l ≠ [] := by
  obtain ⟨n, hn⟩ := List.mem_iff_getElem?.1 hl
  obtain ⟨hlt, -⟩ := getElem?_levels hn
  rcases above_eq_zero_or (Table.values (g.depths [] g.order)) with hzero | ⟨k, hk, hsucc⟩
  · rw [hzero] at hlt
    exact absurd hlt (Nat.not_lt_zero n)
  · obtain ⟨e, he, rfl⟩ := List.mem_map.1 hk
    have hdepth : g.IsDepth e.2 e.1 := h.mem_depths_iff.1 he
    obtain ⟨b, hb⟩ := hdepth.exists_of_le (Nat.le_of_lt_succ (hsucc ▸ hlt))
    exact List.ne_nil_of_mem ((h.mem_level_iff hn).2 hb)

/-- Every node is in one level. -/
theorem WellFormed.flatten_levels_perm (h : g.WellFormed) : g.levels.flatten.Perm g.ids := by
  have hnodup : g.levels.flatten.Nodup := by
    refine List.nodup_flatten.2 ⟨fun l hl => (h.sublist_order hl).nodup h.nodup_order, ?_⟩
    refine List.pairwise_iff_getElem.2 fun i j hi hj hij a hai haj => ?_
    have hdi := (h.mem_level_iff (List.getElem?_eq_getElem hi)).1 hai
    have hdj := (h.mem_level_iff (List.getElem?_eq_getElem hj)).1 haj
    exact absurd (hdi.unique hdj) (Nat.ne_of_lt hij)
  refine (List.perm_ext_iff_of_nodup hnodup h.ids_nodup).2 fun a => ?_
  constructor
  · intro ha
    obtain ⟨l, hl, hal⟩ := List.mem_flatten.1 ha
    exact h.mem_order_iff.1 ((h.sublist_order hl).subset hal)
  · intro ha
    have hkeys : a ∈ Table.keys (g.depths [] g.order) := by
      rw [h.isDepth_depths.1]
      exact h.mem_order_iff.2 ha
    obtain ⟨n, hget⟩ := Table.exists_get?_of_mem_keys hkeys
    obtain ⟨l, hl, hal⟩ := h.atLevel_iff.2 (h.mem_depths_iff.1 (Table.mem_of_get? hget))
    exact List.mem_flatten.2 ⟨l, List.mem_of_getElem? hl, hal⟩

/-- **The levels of a graph are the lengths of its longest chains.**  They are not empty, and every
node is in one of them.  A node is in level `n` if and only if the longest chain of dependencies
that ends at it has `n` edges; so it depends on a node of the level below, unless its own level is
the lowest, and on none of its own level, not even through others.  Within a level nodes keep the
order of execution. -/
theorem levels_are_longest_chains (h : Reachable g) :
    (∀ l ∈ g.levels, l ≠ []) ∧ g.levels.flatten.Perm g.ids ∧
      (∀ n a, g.AtLevel n a ↔ g.IsDepth n a) ∧
      (∀ n a, g.AtLevel (n + 1) a → ∃ d, g.DependsOn a d ∧ g.AtLevel n d) ∧
      (∀ n a b, g.AtLevel n a → g.AtLevel n b → ¬ TransGen g.DependsOn a b) ∧
      ∀ l ∈ g.levels, l.Sublist g.order := by
  have hwell := h.wellFormed
  refine ⟨fun l => hwell.ne_nil_of_mem_levels, hwell.flatten_levels_perm,
    fun n a => hwell.atLevel_iff, fun n a ha => ?_, fun n a b ha hb hab => ?_,
    fun l => hwell.sublist_order⟩
  · obtain ⟨d, had, hd⟩ := (hwell.atLevel_iff.1 ha).exists_dependency
    exact ⟨d, had, hwell.atLevel_iff.2 hd⟩
  · exact Nat.lt_irrefl n ((hwell.atLevel_iff.1 ha).lt (hwell.atLevel_iff.1 hb) hab)

/-- The theorem applies to a graph in which one node has been seen to read another one, and the
longest way to the last node is not the shortest. -/
theorem levels_are_longest_chains_of_reading :
    ∃ g : Graph, Reachable g ∧ g.levels = [[⟨"b"⟩, ⟨"c"⟩], [⟨"a"⟩], [⟨"d"⟩]] ∧
      g.IsDepth 2 ⟨"d"⟩ ∧ g.DependsOn ⟨"d"⟩ ⟨"b"⟩ := by
  obtain ⟨g, hreg, htest⟩ := exists_built_of_any
    ((empty none none).registerAll [(⟨"b"⟩, [], .constant .null), (⟨"a"⟩, [], .reading ⟨"c"⟩),
      (⟨"c"⟩, [], .constant .null), (⟨"d"⟩, [⟨"a"⟩, ⟨"b"⟩], .constant .null)])
    (fun g => (g.execute none []).2.levels == [[⟨"b"⟩, ⟨"c"⟩], [⟨"a"⟩], [⟨"d"⟩]] &&
      decide (⟨"b"⟩ ∈ (g.execute none []).2.dependenciesOf ⟨"d"⟩)) (by cbv)
  simp only [Bool.and_eq_true, beq_iff_eq, decide_eq_true_eq] at htest
  have hg : Reachable (g.execute none []).2 :=
    (Reachable.registerAll (.empty none none) hreg).execute none []
  obtain ⟨-, -, hdepth, -⟩ := levels_are_longest_chains hg
  refine ⟨_, hg, htest.1, (hdepth 2 ⟨"d"⟩).1 ⟨[⟨"d"⟩], ?_, List.mem_singleton_self _⟩, htest.2⟩
  rw [htest.1]
  rfl

end Graph

end ReactiveScript

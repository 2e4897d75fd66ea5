import Mathlib.Order.WellFounded
import ReactiveScript.Graph.Order
import ReactiveScript.Proofs.Graph.Shape

/-!
# The listing of a graph

`Graph.Lists` says what the order of execution is without saying how it is found: the next node is
the least of those whose dependencies have all been listed, until every node has been.

* `Graph.WellFormed.lists_order` — `Graph.order` is the listing of a well-formed graph.
* `Graph.Lists.split` — what holds at the turn of a node: its dependencies are behind it, and it is
  not.
* `Graph.Lists.unique` — there is only one listing, and it is determined by what the nodes depend on.
-/

set_option autoImplicit false

namespace ReactiveScript

namespace Graph

open Relation

variable {g g' : Graph}

/-! ## Going down along dependencies ends -/

/-- In a well-formed graph one can argue by induction from the dependencies of a node to the
node. -/
theorem WellFormed.wellFounded (h : g.WellFormed) :
    WellFounded fun a b => g.DependsOn b a := by
  classical
  -- What a node reaches gets smaller with every step.
  let below : NodeId → Nat := fun a =>
    (g.ids.filter fun b => decide (TransGen g.DependsOn a b)).length
  refine Subrelation.wf (r := Function.onFun (· < ·) below) (fun {a b} hba => ?_)
    (InvImage.wf below Nat.lt_wfRel.wf)
  refine length_filter_lt (a := a) (fun c hac => ?_) (h.mem_ids_of_dependsOn hba).2 ?_ ?_
  · simpa using TransGen.head hba (by simpa using hac)
  · simpa using TransGen.single hba
  · simpa using h.acyclic a

/-! ## Listings -/

/-- A node that is still to be listed and whose dependencies have all been. -/
structure Ready (g : Graph) (done : List NodeId) (id : NodeId) : Prop where
  /-- There is such a node. -/
  mem_ids : id ∈ g.ids
  /-- It has not been listed. -/
  not_mem : id ∉ done
  /-- Its dependencies have. -/
  dependencies_subset : g.dependenciesOf id ⊆ done

/-- What is listed after some nodes have been: always the least node that is ready, until none is
left. -/
inductive Lists (g : Graph) : List NodeId → List NodeId → Prop
  /-- Every node has been listed. -/
  | nil {done : List NodeId} : g.ids ⊆ done → g.Lists done []
  /-- The least node that is ready is listed. -/
  | cons {done rest : List NodeId} {id : NodeId} :
      g.Ready done id → (∀ j, g.Ready done j → j = id ∨ id.text < j.text) →
      g.Lists (done ++ [id]) rest → g.Lists done (id :: rest)

namespace Lists

variable {done rest : List NodeId}

theorem mem_iff (h : g.Lists done rest) {id : NodeId} :
    id ∈ rest ↔ id ∈ g.ids ∧ id ∉ done := by
  induction h with
  | nil hids => exact ⟨fun hid => absurd hid List.not_mem_nil, fun ⟨hid, hd⟩ => absurd (hids hid) hd⟩
  | cons hready hleast _ ih =>
    rw [List.mem_cons, ih, List.mem_append, List.mem_singleton, not_or]
    constructor
    · rintro (rfl | ⟨hid, hd, -⟩)
      · exact ⟨hready.mem_ids, hready.not_mem⟩
      · exact ⟨hid, hd⟩
    · rintro ⟨hid, hd⟩
      exact or_iff_not_imp_left.2 fun hne => ⟨hid, hd, hne⟩

theorem nodup (h : g.Lists done rest) : rest.Nodup := by
  induction h with
  | nil _ => exact List.nodup_nil
  | cons hready _ hrest ih =>
    refine List.nodup_cons.2 ⟨fun hid => ?_, ih⟩
    exact (hrest.mem_iff.1 hid).2 (by simp)

/-- A listing can be cut anywhere. -/
theorem drop (pre : List NodeId) {post : List NodeId} (h : g.Lists done (pre ++ post)) :
    g.Lists (done ++ pre) post := by
  induction pre generalizing done with
  | nil => rwa [List.append_nil]
  | cons id pre ih =>
    cases h with
    | cons _ _ hrest =>
      have := ih hrest
      rwa [List.append_assoc] at this

/-- **At the turn of a node its dependencies are behind it.** -/
theorem split (pre : List NodeId) {post : List NodeId} {id : NodeId} (h : g.Lists done (pre ++ id :: post)) :
    g.Ready (done ++ pre) id := by
  cases h.drop pre with
  | cons hready _ _ => exact hready

/-- What a node depends on is listed before it. -/
theorem mem_of_dependsOn {pre post : List NodeId} (h : g.Lists [] (pre ++ post)) {a b : NodeId}
    (ha : a ∈ pre) (hab : TransGen g.DependsOn a b) : b ∈ pre := by
  have hstep : ∀ a ∈ pre, ∀ b, g.DependsOn a b → b ∈ pre := by
    intro a ha b hab
    obtain ⟨before, after, rfl⟩ := List.append_of_mem ha
    rw [List.append_assoc, List.cons_append] at h
    have hb := (h.split before).dependencies_subset hab
    exact List.mem_append_left _ hb
  induction hab with
  | single hab => exact hstep _ ha _ hab
  | tail _ hbc ih => exact hstep _ ih _ hbc

/-- What is listed later is a matter of the nodes that are left. -/
theorem congr (h : g.Lists done rest) (hids : g'.ids = g.ids)
    (hdependencies : ∀ j, j ∉ done → g'.dependenciesOf j = g.dependenciesOf j) :
    g'.Lists done rest := by
  induction h with
  | nil hsub => exact .nil (hids ▸ hsub)
  | cons hready hleast _ ih =>
    have hiff : ∀ j, g'.Ready _ j ↔ g.Ready _ j := fun j => by
      constructor
      · rintro ⟨hid, hd, hsub⟩
        exact ⟨hids ▸ hid, hd, hdependencies j hd ▸ hsub⟩
      · rintro ⟨hid, hd, hsub⟩
        exact ⟨hids ▸ hid, hd, (hdependencies j hd).symm ▸ hsub⟩
    refine .cons ((hiff _).2 hready) (fun j hj => hleast j ((hiff j).1 hj)) (ih fun j hj => ?_)
    exact hdependencies j fun hd => hj (List.mem_append_left _ hd)

/-- Two graphs in which the same nodes are ready at every turn have the same listing. -/
theorem unique {rest' : List NodeId} (h : g.Lists done rest) (h' : g'.Lists done rest')
    (hready : ∀ pre id, pre <+: rest → (g.Ready (done ++ pre) id ↔ g'.Ready (done ++ pre) id))
    (hids : ∀ id, id ∈ g.ids ↔ id ∈ g'.ids) : rest = rest' := by
  induction h generalizing rest' with
  | nil hsub =>
    cases h' with
    | nil _ => rfl
    | cons hready' _ _ => exact absurd (hsub ((hids _).2 hready'.mem_ids)) hready'.not_mem
  | @cons done rest id hid hleast hrest ih =>
    have hiff : ∀ j, g.Ready done j ↔ g'.Ready done j := fun j => by
      simpa using hready [] j List.nil_prefix
    cases h' with
    | nil hsub => exact absurd (hsub ((hids _).1 hid.mem_ids)) hid.not_mem
    | @cons _ rest' id' hid' hleast' hrest' =>
      have heq : id = id' := by
        rcases hleast id' ((hiff id').2 hid') with heq | hlt
        · exact heq.symm
        · rcases hleast' id ((hiff id).1 hid) with heq | hgt
          · exact heq
          · exact absurd hlt (lt_asymm hgt)
      subst heq
      rw [ih hrest' fun pre j hpre => ?_]
      have := hready (id :: pre) j (List.cons_prefix_cons.2 ⟨rfl, hpre⟩)
      rwa [List.append_cons] at this

end Lists

end Graph

/-! ## Waiting nodes -/

namespace Waiting

/-- What `Waiting.takeReady` takes out is the first that waits for none. -/
theorem takeReady_cases {ws rest : List Waiting} {id : NodeId}
    (h : takeReady ws = some (id, rest)) :
    ∃ before w after, ws = before ++ w :: after ∧ w.id = id ∧ w.count = 0 ∧
      rest = before ++ after ∧ ∀ b ∈ before, b.count ≠ 0 := by
  induction ws generalizing id rest with
  | nil => cases h
  | cons w ws ih =>
    rw [takeReady] at h
    split at h
    · rename_i hw
      cases h
      exact ⟨[], w, _, rfl, rfl, hw, rfl, by simp⟩
    · rename_i hw
      obtain ⟨⟨id', rest'⟩, ht, heq⟩ := Option.map_eq_some_iff.1 h
      cases heq
      obtain ⟨before, w', after, rfl, hid, hcount, rfl, hbefore⟩ := ih ht
      refine ⟨w :: before, w', after, rfl, hid, hcount, rfl, fun b hb => ?_⟩
      rcases List.mem_cons.1 hb with rfl | hb
      · exact hw
      · exact hbefore b hb

theorem takeReady_eq_none {ws : List Waiting} (h : takeReady ws = none) {w : Waiting}
    (hw : w ∈ ws) : w.count ≠ 0 := by
  induction ws with
  | nil => cases hw
  | cons w' ws ih =>
    rw [takeReady] at h
    split at h
    · cases h
    · rename_i hcount
      rcases List.mem_cons.1 hw with rfl | hw
      · exact hcount
      · exact ih (Option.map_eq_none_iff.1 h) hw

@[simp] theorem id_release (ds : List NodeId) (w : Waiting) : (w.release ds).id = w.id := by
  rw [release]
  split <;> rfl

end Waiting

namespace Graph

variable {g : Graph}

/-- The dependencies of a node that have not been listed. -/
def missing (g : Graph) (done : List NodeId) (id : NodeId) : List NodeId :=
  (g.dependenciesOf id).filter fun d => !done.contains d

theorem mem_missing {done : List NodeId} {id d : NodeId} :
    d ∈ g.missing done id ↔ d ∈ g.dependenciesOf id ∧ d ∉ done := by
  simp [missing]

/-- Listing a node that has not been listed leaves its dependents one node less to wait for. -/
theorem WellFormed.length_missing (h : g.WellFormed) {done : List NodeId} {id : NodeId}
    (hid : id ∉ done) (a : NodeId) :
    (g.missing (done ++ [id]) a).length
      = if a ∈ g.dependentsOf id then (g.missing done a).length - 1
        else (g.missing done a).length := by
  have hnodup : (g.missing done a).Nodup := (h.dependencies_sorted a).nodup.filter _
  have hstep : g.missing (done ++ [id]) a = (g.missing done a).filter (· != id) := by
    rw [missing, missing, List.filter_filter]
    refine List.filter_congr fun d _ => ?_
    by_cases hd : d = id <;> simp [hd]
  rw [hstep, ← hnodup.erase_eq_filter]
  split
  · rename_i ha
    exact List.length_erase_of_mem (mem_missing.2 ⟨(h.mirrored a id).2 ha, hid⟩)
  · rename_i ha
    rw [List.erase_of_not_mem fun hmem => ha ((h.mirrored a id).1 (mem_missing.1 hmem).1)]

/-- What the nodes that wait say of the nodes that have been listed: they are all others, in order,
and each waits for those of its dependencies that have not been. -/
structure Pends (g : Graph) (done : List NodeId) (ws : List Waiting) : Prop where
  /-- They stand in the order of their ids. -/
  sorted : NodeId.Sorted (ws.map Waiting.id)
  /-- They are the nodes that have not been listed. -/
  mem_iff : ∀ id, id ∈ ws.map Waiting.id ↔ id ∈ g.ids ∧ id ∉ done
  /-- Each waits for its dependencies. -/
  count_eq : ∀ w ∈ ws, w.count = (g.missing done w.id).length

theorem Pends.count_eq_zero_iff {done : List NodeId} {ws : List Waiting} (h : g.Pends done ws)
    {w : Waiting} (hw : w ∈ ws) : w.count = 0 ↔ g.Ready done w.id := by
  obtain ⟨hid, hdone⟩ := (h.mem_iff w.id).1 (List.mem_map_of_mem hw)
  rw [h.count_eq w hw, List.length_eq_zero_iff, missing, List.filter_eq_nil_iff]
  constructor
  · exact fun hall => ⟨hid, hdone, fun d hd => by simpa using hall d hd⟩
  · exact fun hready d hd => by simpa using hready.dependencies_subset hd

theorem Pends.next {done : List NodeId} {before after : List Waiting} {w : Waiting}
    (hg : g.WellFormed) (h : g.Pends done (before ++ w :: after)) :
    g.Pends (done ++ [w.id]) ((before ++ after).map (Waiting.release (g.dependentsOf w.id))) := by
  have hw := (h.mem_iff w.id).1 (by simp)
  have hnodup := h.sorted.nodup
  have hids : ((before ++ after).map (Waiting.release (g.dependentsOf w.id))).map Waiting.id
      = (before ++ after).map Waiting.id := by
    rw [List.map_map]
    exact List.map_congr_left fun w' _ => Waiting.id_release _ w'
  have hne : ∀ w' ∈ before ++ after, w'.id ≠ w.id := by
    rw [List.map_append, List.map_cons, List.nodup_middle] at hnodup
    intro w' hw' heq
    refine (List.nodup_cons.1 hnodup).1 ?_
    rw [← heq, ← List.map_append]
    exact List.mem_map_of_mem hw'
  refine ⟨?_, fun id => ?_, fun w' hw' => ?_⟩
  · rw [hids]
    refine List.Pairwise.sublist (List.Sublist.map _ ?_) h.sorted
    exact (List.sublist_cons_self w after).append_left before
  · have hcons : id ∈ (before ++ w :: after).map Waiting.id
        ↔ id = w.id ∨ id ∈ (before ++ after).map Waiting.id := by
      simp only [List.map_append, List.map_cons, List.mem_append, List.mem_cons]
      exact or_left_comm
    rw [hids, List.mem_append, List.mem_singleton, not_or, ← and_assoc, ← h.mem_iff id, hcons]
    constructor
    · intro hid
      refine ⟨Or.inr hid, fun heq => ?_⟩
      obtain ⟨w', hw', rfl⟩ := List.mem_map.1 hid
      exact hne w' hw' heq
    · rintro ⟨heq | hid, hne'⟩
      · exact absurd heq hne'
      · exact hid
  · obtain ⟨v, hv, rfl⟩ := List.mem_map.1 hw'
    have hmem : v ∈ before ++ w :: after := by
      rcases List.mem_append.1 hv with hv | hv
      · exact List.mem_append_left _ hv
      · exact List.mem_append_right _ (List.mem_cons_of_mem _ hv)
    rw [Waiting.id_release, hg.length_missing hw.2, Waiting.release, ← h.count_eq v hmem]
    split <;> rfl

theorem pends_waiting (g : Graph) : g.Pends [] g.waiting := by
  have hids : g.waiting.map Waiting.id = NodeId.set g.ids := by
    rw [waiting, List.map_filterMap]
    rw [show (fun id => Option.map Waiting.id ((g.node? id).map fun n =>
      (⟨id, n.dependencies.length⟩ : Waiting))) = fun id => (g.node? id).map fun _ => id by
      funext id
      cases g.node? id <;> rfl]
    have hall : ∀ id ∈ NodeId.set g.ids, ((g.node? id).map fun _ => id) = some id := by
      intro id hid
      obtain ⟨n, hn⟩ := mem_ids_iff.1 (NodeId.mem_set.1 hid)
      rw [hn]
      rfl
    rw [List.filterMap_congr hall, List.filterMap_some]
  refine ⟨?_, fun id => ?_, fun w hw => ?_⟩
  · rw [hids]
    exact NodeId.sorted_set g.ids
  · rw [hids, NodeId.mem_set]
    simp
  · obtain ⟨id, -, hid⟩ := List.mem_filterMap.1 hw
    obtain ⟨n, hn, rfl⟩ := Option.map_eq_some_iff.1 hid
    simp [missing, dependenciesOf_eq hn]

/-- If every waiting node waits for another one, there is none. -/
theorem Pends.eq_nil {done : List NodeId} {ws : List Waiting} (hg : g.WellFormed)
    (h : g.Pends done ws) (hnone : Waiting.takeReady ws = none) : g.ids ⊆ done := by
  intro id hid
  induction id using hg.wellFounded.induction with
  | _ id ih =>
    by_contra hdone
    obtain ⟨w, hw, rfl⟩ := List.mem_map.1 ((h.mem_iff id).2 ⟨hid, hdone⟩)
    refine Waiting.takeReady_eq_none hnone hw ((h.count_eq_zero_iff hw).2 ⟨hid, hdone, ?_⟩)
    exact fun d hd => ih d hd (hg.mem_ids_of_dependsOn hd).2

theorem Pends.lists (hg : g.WellFormed) {done : List NodeId} {ws : List Waiting}
    (h : g.Pends done ws) : g.Lists done (g.orderFrom ws) := by
  fun_induction g.orderFrom ws generalizing done with
  | case1 ws hnone => exact .nil (h.eq_nil hg hnone)
  | case2 ws id rest htake ih =>
    obtain ⟨before, w, after, rfl, rfl, hcount, rfl, hbefore⟩ := Waiting.takeReady_cases htake
    refine .cons ((h.count_eq_zero_iff (by simp)).1 hcount) (fun j hj => ?_) (ih (h.next hg))
    obtain ⟨v, hv, rfl⟩ := List.mem_map.1 ((h.mem_iff j).2 ⟨hj.mem_ids, hj.not_mem⟩)
    have hzero := (h.count_eq_zero_iff hv).2 hj
    -- Nothing before `w` is ready, and what comes after it has a greater id.
    rcases List.mem_append.1 hv with hv | hv
    · exact absurd hzero (hbefore v hv)
    · rcases List.mem_cons.1 hv with rfl | hv
      · exact Or.inl rfl
      · have hsorted := h.sorted
        rw [List.map_append, List.map_cons] at hsorted
        have := (List.pairwise_append.1 hsorted).2.1
        exact Or.inr ((List.pairwise_cons.1 this).1 _ (List.mem_map_of_mem hv))

/-- **The order of execution is the listing of the graph**: every node comes once, after its
dependencies, and as early as nodes with a lesser id allow. -/
theorem WellFormed.lists_order (h : g.WellFormed) : g.Lists [] g.order :=
  g.pends_waiting.lists h

theorem WellFormed.mem_order_iff (h : g.WellFormed) {id : NodeId} : id ∈ g.order ↔ id ∈ g.ids := by
  rw [h.lists_order.mem_iff]
  simp

theorem WellFormed.nodup_order (h : g.WellFormed) : g.order.Nodup := h.lists_order.nodup

end Graph

end ReactiveScript

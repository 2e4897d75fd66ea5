import ReactiveScript.Proofs.Graph.Shape

/-!
# What depends on some nodes

`Graph.affected` is a search along dependents.  It keeps the nodes it started from
(`subset_reach`), is closed under dependents (`reach_closed`) and finds nothing else
(`reach_sound`), so in a well-formed graph it returns the registered nodes it is given together with
whatever depends on one of them: `mem_affected_iff`.
-/

set_option autoImplicit false

namespace ReactiveScript

namespace Graph

open Relation

variable {g : Graph}

/-! ## The search -/

theorem subset_reach (visited queue : List NodeId) : visited ⊆ g.reach visited queue := by
  fun_induction g.reach visited queue with
  | case1 visited => exact List.Subset.refl _
  | case2 visited id queue hn ih => exact ih
  | case3 visited id queue n hn hv ih => exact ih
  | case4 visited id queue n hn hv ih =>
    exact fun x hx => ih (NodeId.mem_insert.2 (Or.inr hx))

theorem queue_subset_reach (visited queue : List NodeId) {x : NodeId} (hx : x ∈ queue)
    (hid : x ∈ g.ids) : x ∈ g.reach visited queue := by
  fun_induction g.reach visited queue with
  | case1 visited => cases hx
  | case2 visited id queue hn ih =>
    rcases List.mem_cons.1 hx with rfl | hx
    · exact absurd hid (node?_eq_none_iff.1 hn)
    · exact ih hx
  | case3 visited id queue n hn hv ih =>
    rcases List.mem_cons.1 hx with rfl | hx
    · exact subset_reach _ _ hv
    · exact ih hx
  | case4 visited id queue n hn hv ih =>
    rcases List.mem_cons.1 hx with rfl | hx
    · exact subset_reach _ _ (NodeId.mem_insert.2 (Or.inl rfl))
    · exact ih (List.mem_append_left _ hx)

/-- Everything the search returns was visited before or is reached from the queue. -/
theorem reach_sound (visited queue : List NodeId) {x : NodeId} (hx : x ∈ g.reach visited queue) :
    x ∈ visited ∨
      ∃ q ∈ queue, q ∈ g.ids ∧ ReflTransGen (fun a b => b ∈ g.dependentsOf a) q x := by
  fun_induction g.reach visited queue with
  | case1 visited => exact Or.inl hx
  | case2 visited id queue hn ih =>
    exact (ih hx).imp_right fun ⟨q, hq, h⟩ => ⟨q, List.mem_cons_of_mem _ hq, h⟩
  | case3 visited id queue n hn hv ih =>
    exact (ih hx).imp_right fun ⟨q, hq, h⟩ => ⟨q, List.mem_cons_of_mem _ hq, h⟩
  | case4 visited id queue n hn hv ih =>
    have hid : id ∈ g.ids := mem_ids_iff.2 ⟨n, hn⟩
    rcases ih hx with hx | ⟨q, hq, hqid, hqx⟩
    · rcases NodeId.mem_insert.1 hx with rfl | hx
      · exact Or.inr ⟨x, List.mem_cons_self, hid, .refl⟩
      · exact Or.inl hx
    · rcases List.mem_append.1 hq with hq | hq
      · exact Or.inr ⟨q, List.mem_cons_of_mem _ hq, hqid, hqx⟩
      · rw [← dependentsOf_eq hn] at hq
        exact Or.inr ⟨id, List.mem_cons_self, hid, hqx.head hq⟩

/-- The search stops only when nothing leads out of what it returns, provided that what leads out of
the nodes visited before is on the queue. -/
theorem reach_closed (visited queue : List NodeId)
    (hclosed : ∀ x ∈ visited, ∀ y ∈ g.dependentsOf x, y ∈ g.ids → y ∈ visited ∨ y ∈ queue)
    {x y : NodeId} (hx : x ∈ g.reach visited queue) (hy : y ∈ g.dependentsOf x)
    (hid : y ∈ g.ids) : y ∈ g.reach visited queue := by
  fun_induction g.reach visited queue with
  | case1 visited => exact (hclosed x hx y hy hid).resolve_right List.not_mem_nil
  | case2 visited id queue hn ih =>
    refine ih (fun a ha b hb hbid => ?_) hx
    rcases hclosed a ha b hb hbid with h | h
    · exact Or.inl h
    · rcases List.mem_cons.1 h with rfl | h
      · exact absurd hbid (node?_eq_none_iff.1 hn)
      · exact Or.inr h
  | case3 visited id queue n hn hv ih =>
    refine ih (fun a ha b hb hbid => ?_) hx
    rcases hclosed a ha b hb hbid with h | h
    · exact Or.inl h
    · rcases List.mem_cons.1 h with rfl | h
      · exact Or.inl hv
      · exact Or.inr h
  | case4 visited id queue n hn hv ih =>
    refine ih (fun a ha b hb hbid => ?_) hx
    rcases NodeId.mem_insert.1 ha with rfl | ha
    · rw [dependentsOf_eq hn] at hb
      exact Or.inr (List.mem_append_right _ hb)
    · rcases hclosed a ha b hb hbid with h | h
      · exact Or.inl (NodeId.mem_insert.2 (Or.inr h))
      · rcases List.mem_cons.1 h with rfl | h
        · exact Or.inl (NodeId.mem_insert.2 (Or.inl rfl))
        · exact Or.inr (List.mem_append_left _ h)

/-! ## What it finds -/

namespace WellFormed

/-- **A node is affected by a change of some nodes if it is one of them or depends on one of
them.**  Ids that are not registered do not count. -/
theorem mem_affected_iff (h : g.WellFormed) {changed : List NodeId} {x : NodeId} :
    x ∈ g.affected changed ↔ ∃ c ∈ changed, c ∈ g.ids ∧ ReflTransGen g.DependsOn x c := by
  have hswap : Function.swap g.DependsOn = fun a b => b ∈ g.dependentsOf a := by
    funext a b
    exact propext (h.mirrored b a)
  constructor
  · intro hx
    rcases reach_sound [] changed hx with hx | ⟨c, hc, hcid, hcx⟩
    · cases hx
    · exact ⟨c, hc, hcid, reflTransGen_swap.1 (hswap ▸ hcx)⟩
  · rintro ⟨c, hc, hcid, hxc⟩
    have hcx : ReflTransGen (fun a b => b ∈ g.dependentsOf a) c x :=
      hswap ▸ reflTransGen_swap.2 hxc
    induction hcx with
    | refl => exact queue_subset_reach [] changed hc hcid
    | @tail y z hcy hyz ih =>
      have hzid : z ∈ g.ids := mem_ids_of_mem_dependenciesOf ((h.mirrored z y).2 hyz)
      exact reach_closed [] changed (fun a ha => absurd ha List.not_mem_nil)
        (ih (reflTransGen_swap.1 (hswap ▸ hcy))) hyz hzid

theorem subset_affected (h : g.WellFormed) {changed : List NodeId} {c : NodeId}
    (hc : c ∈ changed) (hid : c ∈ g.ids) : c ∈ g.affected changed :=
  h.mem_affected_iff.2 ⟨c, hc, hid, .refl⟩

/-- What depends on an affected node is affected. -/
theorem affected_closed (h : g.WellFormed) {changed : List NodeId} {x y : NodeId}
    (hx : x ∈ g.affected changed) (hyx : g.DependsOn y x) : y ∈ g.affected changed := by
  obtain ⟨c, hc, hcid, hxc⟩ := h.mem_affected_iff.1 hx
  exact h.mem_affected_iff.2 ⟨c, hc, hcid, hxc.head hyx⟩

end WellFormed

/-! ## Two nodes -/

/-- A node that is new puts its dependents at the end of the queue. -/
theorem reach_cons {visited queue : List NodeId} {id : NodeId} {n : Node} (hn : g.node? id = some n)
    (hid : id ∉ visited) :
    g.reach visited (id :: queue) = g.reach (NodeId.insert id visited) (queue ++ n.dependents) := by
  rw [reach]
  split
  · rename_i hnone
    cases hn.symm.trans hnone
  · rename_i n' hn'
    obtain rfl := Option.some.inj (hn.symm.trans hn')
    exact dif_neg hid

/-- A node affects the one node that depends on it, if nothing depends on that one. -/
theorem affected_of_dependents {a b : NodeId} {n m : Node} (hn : g.node? a = some n)
    (hm : g.node? b = some m) (hdependents : n.dependents = [b]) (hnone : m.dependents = [])
    (hne : b ≠ a) : g.affected [a] = NodeId.insert b [a] := by
  have hb : b ∉ NodeId.insert a [] := by simpa [NodeId.mem_insert] using hne
  rw [affected, reach_cons hn List.not_mem_nil, hdependents, List.nil_append, reach_cons hm hb, hnone]
  exact reach.eq_1 g _

end Graph

end ReactiveScript

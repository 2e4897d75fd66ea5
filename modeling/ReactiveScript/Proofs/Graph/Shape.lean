import Mathlib.Logic.Relation
import ReactiveScript.Graph.Report
import ReactiveScript.Proofs.Graph.NodeSet
import ReactiveScript.Proofs.Table

/-!
# The shape of a graph

The shape of a graph is what its nodes are connected by: dependencies, dependents and parameters.
`Graph.WellFormed` says that the two ends of every edge agree, that parameters are dependencies and
that no node depends on itself through others.

* `Graph.DependsOn` — one node has another among its dependencies.
* `Graph.WellFormed.of_shape` — well-formedness is about the shape only, so a step that changes
  statuses and values cannot break it.
* `acyclic_of_new_edges` — edges into nodes that do not lead back close no cycle.
-/

set_option autoImplicit false

namespace ReactiveScript

namespace Graph

open Relation

/-- The parameters of a node. -/
def paramsOf (g : Graph) (id : NodeId) : List NodeId :=
  ((g.node? id).map Node.params).getD []

/-- One node is among the dependencies of another. -/
def DependsOn (g : Graph) (a b : NodeId) : Prop := b ∈ g.dependenciesOf a

/-- The two ends of every edge agree, and the edges form no cycle. -/
structure WellFormed (g : Graph) : Prop where
  /-- Every node has one entry. -/
  ids_nodup : g.ids.Nodup
  /-- Dependencies are sets. -/
  dependencies_sorted : ∀ a, NodeId.Sorted (g.dependenciesOf a)
  /-- Dependents are sets. -/
  dependents_sorted : ∀ a, NodeId.Sorted (g.dependentsOf a)
  /-- Every edge is known at both ends. -/
  mirrored : ∀ a b, b ∈ g.dependenciesOf a ↔ a ∈ g.dependentsOf b
  /-- Parameters are dependencies. -/
  params_subset : ∀ a, g.paramsOf a ⊆ g.dependenciesOf a
  /-- No node depends on itself through others. -/
  acyclic : ∀ a, ¬ TransGen g.DependsOn a a

/-! ## Reading nodes after an update -/

theorem node?_update (g : Graph) (id j : NodeId) (f : Node → Node) :
    (g.update id f).node? j = if id = j then (g.node? j).map f else g.node? j :=
  Table.get?_update g.nodes id j f

@[simp] theorem ids_update (g : Graph) (id : NodeId) (f : Node → Node) :
    (g.update id f).ids = g.ids :=
  Table.keys_update g.nodes id f

theorem mem_ids_iff {g : Graph} {id : NodeId} : id ∈ g.ids ↔ ∃ n, g.node? id = some n :=
  ⟨Table.exists_get?_of_mem_keys, fun ⟨_, hn⟩ => Table.mem_keys_of_get? hn⟩

theorem contains_iff {g : Graph} {id : NodeId} : g.contains id = true ↔ id ∈ g.ids :=
  Table.has_iff

theorem node?_eq_none_iff {g : Graph} {id : NodeId} : g.node? id = none ↔ id ∉ g.ids :=
  Table.get?_eq_none_iff

theorem dependenciesOf_eq {g : Graph} {id : NodeId} {n : Node} (h : g.node? id = some n) :
    g.dependenciesOf id = n.dependencies := by
  simp [dependenciesOf, h]

theorem dependentsOf_eq {g : Graph} {id : NodeId} {n : Node} (h : g.node? id = some n) :
    g.dependentsOf id = n.dependents := by
  simp [dependentsOf, h]

theorem paramsOf_eq {g : Graph} {id : NodeId} {n : Node} (h : g.node? id = some n) :
    g.paramsOf id = n.params := by
  simp [paramsOf, h]

theorem mem_ids_of_mem_dependenciesOf {g : Graph} {a b : NodeId} (h : b ∈ g.dependenciesOf a) :
    a ∈ g.ids := by
  cases hn : g.node? a with
  | none => simp [dependenciesOf, hn] at h
  | some n => exact mem_ids_iff.2 ⟨n, hn⟩

theorem mem_ids_of_mem_dependentsOf {g : Graph} {a b : NodeId} (h : b ∈ g.dependentsOf a) :
    a ∈ g.ids := by
  cases hn : g.node? a with
  | none => simp [dependentsOf, hn] at h
  | some n => exact mem_ids_iff.2 ⟨n, hn⟩

theorem dependenciesOf_update (g : Graph) (id j : NodeId) {f : Node → Node}
    (hf : ∀ n, (f n).dependencies = n.dependencies) :
    (g.update id f).dependenciesOf j = g.dependenciesOf j := by
  rw [dependenciesOf, node?_update, dependenciesOf]
  split
  · cases g.node? j <;> simp [hf]
  · rfl

theorem dependentsOf_update (g : Graph) (id j : NodeId) {f : Node → Node}
    (hf : ∀ n, (f n).dependents = n.dependents) :
    (g.update id f).dependentsOf j = g.dependentsOf j := by
  rw [dependentsOf, node?_update, dependentsOf]
  split
  · cases g.node? j <;> simp [hf]
  · rfl

theorem paramsOf_update (g : Graph) (id j : NodeId) {f : Node → Node}
    (hf : ∀ n, (f n).params = n.params) : (g.update id f).paramsOf j = g.paramsOf j := by
  rw [paramsOf, node?_update, paramsOf]
  split
  · cases g.node? j <;> simp [hf]
  · rfl

/-! ## Well-formedness looks at the shape only -/

namespace WellFormed

variable {g g' : Graph}

theorem of_shape (h : g.WellFormed) (hids : g'.ids = g.ids)
    (hdependencies : ∀ a, g'.dependenciesOf a = g.dependenciesOf a)
    (hdependents : ∀ a, g'.dependentsOf a = g.dependentsOf a)
    (hparams : ∀ a, g'.paramsOf a = g.paramsOf a) : g'.WellFormed where
  ids_nodup := hids ▸ h.ids_nodup
  dependencies_sorted a := hdependencies a ▸ h.dependencies_sorted a
  dependents_sorted a := hdependents a ▸ h.dependents_sorted a
  mirrored a b := by rw [hdependencies, hdependents]; exact h.mirrored a b
  params_subset a := by rw [hdependencies, hparams]; exact h.params_subset a
  acyclic a := by
    have : g'.DependsOn = g.DependsOn := by
      funext a b
      rw [DependsOn, DependsOn, hdependencies]
    rw [this]
    exact h.acyclic a

/-- Changing a node in what is not its shape keeps a graph well-formed. -/
theorem update (h : g.WellFormed) (id : NodeId) {f : Node → Node}
    (hdependencies : ∀ n, (f n).dependencies = n.dependencies)
    (hdependents : ∀ n, (f n).dependents = n.dependents)
    (hparams : ∀ n, (f n).params = n.params) : (g.update id f).WellFormed :=
  h.of_shape (g.ids_update id f) (fun a => g.dependenciesOf_update id a hdependencies)
    (fun a => g.dependentsOf_update id a hdependents) fun a => g.paramsOf_update id a hparams

theorem mem_ids_of_dependsOn (h : g.WellFormed) {a b : NodeId} (hab : g.DependsOn a b) :
    a ∈ g.ids ∧ b ∈ g.ids :=
  ⟨mem_ids_of_mem_dependenciesOf hab, mem_ids_of_mem_dependentsOf ((h.mirrored a b).1 hab)⟩

theorem mem_ids_of_transGen (h : g.WellFormed) {a b : NodeId} (hab : TransGen g.DependsOn a b) :
    a ∈ g.ids ∧ b ∈ g.ids := by
  induction hab with
  | single hab => exact h.mem_ids_of_dependsOn hab
  | tail _ hbc ih => exact ⟨ih.1, (h.mem_ids_of_dependsOn hbc).2⟩

end WellFormed

theorem wellFormed_empty (retry : Option RetryPolicy) (timeout : Option Period) :
    (empty retry timeout).WellFormed where
  ids_nodup := List.nodup_nil
  dependencies_sorted _ := List.Pairwise.nil
  dependents_sorted _ := List.Pairwise.nil
  mirrored a b := by constructor <;> intro h <;> cases h
  params_subset a p h := by cases h
  acyclic a h := by
    obtain ⟨b, hab, -⟩ := TransGen.head'_iff.1 h
    cases hab

/-! ## New edges -/

/-- A path that uses new edges from `a` to the nodes of `targets` either uses none or passes through
`a` and one of these nodes. -/
theorem transGen_of_new_edges {r r' : NodeId → NodeId → Prop} {a : NodeId} {targets : List NodeId}
    (hr : ∀ x y, r' x y → r x y ∨ x = a ∧ y ∈ targets) {x y : NodeId} (hxy : TransGen r' x y) :
    TransGen r x y ∨ ReflTransGen r x a ∧ ∃ t ∈ targets, ReflTransGen r t y := by
  induction hxy with
  | single hxy =>
    rcases hr _ _ hxy with hxy | ⟨rfl, ht⟩
    · exact Or.inl (.single hxy)
    · exact Or.inr ⟨.refl, _, ht, .refl⟩
  | tail _ hyz ih =>
    rcases hr _ _ hyz with hyz | ⟨rfl, ht⟩
    · rcases ih with ih | ⟨hxa, t, ht, hty⟩
      · exact Or.inl (ih.tail hyz)
      · exact Or.inr ⟨hxa, t, ht, hty.tail hyz⟩
    · rcases ih with ih | ⟨hxa, -⟩
      · exact Or.inr ⟨ih.to_reflTransGen, _, ht, .refl⟩
      · exact Or.inr ⟨hxa, _, ht, .refl⟩

/-- New edges from a node to nodes that do not depend on it close no cycle. -/
theorem acyclic_of_new_edges {r r' : NodeId → NodeId → Prop} (a : NodeId) (targets : List NodeId)
    (hr : ∀ x y, r' x y → r x y ∨ x = a ∧ y ∈ targets) (hacyclic : ∀ x, ¬ TransGen r x x)
    (htargets : ∀ t ∈ targets, ¬ ReflTransGen r t a) (x : NodeId) : ¬ TransGen r' x x := by
  intro hxx
  rcases transGen_of_new_edges hr hxx with hxx | ⟨hxa, t, ht, htx⟩
  · exact hacyclic x hxx
  · exact htargets t ht (htx.trans hxa)

end Graph

end ReactiveScript

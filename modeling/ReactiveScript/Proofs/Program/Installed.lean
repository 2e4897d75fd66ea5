import ReactiveScript.Program
import ReactiveScript.Proofs.Graph.Store
import ReactiveScript.Proofs.Program.Split

/-!
# The graph of a split script

Registering the nodes of a program one after another leaves a graph with these nodes and no others,
in which nothing has run: a node that is named before it is registered is a placeholder in between.

* `Program.Installed` — the graph of a program before its first walk.
* `Script.SplitsInto.installed` — it is what `Program.install` makes of an empty graph.
-/

set_option autoImplicit false

namespace ReactiveScript

open Relation

namespace Graph

variable {g g' : Graph}

/-- Registering a placeholder leaves a node as if it were new. -/
theorem core_registered {params : List NodeId} {body : Body} {n : Option Node}
    (h : ∀ m, n = some m → m.core = Node.placeholder.core) :
    (registered params body n).core = (Node.fresh params body).core := by
  cases n with
  | none => rfl
  | some m =>
    have hcore : (registered params body (some m)).core = (m.core.redefine params body).core := rfl
    rw [hcore, h m rfl]
    rfl

end Graph

namespace Program

/-- A graph in which some of the declarations of a program have been registered. -/
structure Registers (p : Program) (limit : Nat) (done : List Declaration) (g : Graph) : Prop where
  /-- The shape is sound. -/
  wellFormed : g.WellFormed
  /-- The nodes that have been registered. -/
  declared : ∀ d ∈ done,
    (g.node? d.id).map Node.core = some (Node.fresh d.dependencies (d.body p limit)).core
  /-- The other ones are placeholders. -/
  placeholder : ∀ j ∈ g.ids, j ∉ done.map Declaration.id →
    (g.node? j).map Node.core = some Node.placeholder.core ∧ ∃ d ∈ done, j ∈ d.dependencies

variable {p : Program} {limit : Nat} {done : List Declaration} {g g' : Graph}

theorem Registers.register (h : p.Registers limit done g) {d : Declaration}
    (hd : d.id ∉ done.map Declaration.id) (hdependencies : d.dependencies.Nodup)
    (hreg : g.register d.id d.dependencies (d.body p limit) = .ok g') :
    p.Registers limit (done ++ [d]) g' := by
  have hcore := Graph.core_register hreg
  rw [NodeId.distinct_of_nodup hdependencies] at hcore
  refine ⟨h.wellFormed.register hreg, fun d' hd' => ?_, fun j hj hnew => ?_⟩
  · rcases List.mem_append.1 hd' with hd' | hd'
    · have hne : d'.id ≠ d.id := fun heq => hd (heq ▸ List.mem_map_of_mem hd')
      have hold := h.declared d' hd'
      have hmem : d'.id ∈ g.ids := by
        obtain ⟨n, hn, -⟩ := Option.map_eq_some_iff.1 hold
        exact Graph.mem_ids_iff.2 ⟨n, hn⟩
      rw [hcore, if_neg hne, if_pos hmem, hold]
    · obtain rfl := List.mem_singleton.1 hd'
      rw [hcore, if_pos rfl, Graph.core_registered fun m hm => ?_]
      have hplaceholder := (h.placeholder d'.id (Graph.mem_ids_iff.2 ⟨m, hm⟩) hd).1
      rw [hm] at hplaceholder
      exact Option.some.inj hplaceholder
  · rw [List.map_append, List.mem_append, not_or] at hnew
    have hne : j ≠ d.id := fun heq => hnew.2 (heq ▸ List.mem_singleton_self _)
    rw [hcore, if_neg hne]
    split
    · rename_i hmem
      obtain ⟨hold, d', hd', hj'⟩ := h.placeholder j hmem hnew.1
      exact ⟨hold, d', List.mem_append_left _ hd', hj'⟩
    · rename_i hmem
      have hdep : j ∈ d.dependencies := by
        have := (Graph.mem_ids_register hreg).1 hj
        exact (this.resolve_left hne).resolve_left hmem
      rw [if_pos hdep]
      exact ⟨rfl, d, by simp, hdep⟩

theorem Registers.installAll {ds : List Declaration} (h : p.Registers limit done g)
    (hnodup : ((done ++ ds).map Declaration.id).Nodup)
    (hdependencies : ∀ d ∈ ds, d.dependencies.Nodup) (hinstall : p.installAll limit ds g = .ok g') :
    p.Registers limit (done ++ ds) g' := by
  induction ds generalizing done g with
  | nil =>
    cases hinstall
    rwa [List.append_nil]
  | cons d ds ih =>
    rw [Program.installAll] at hinstall
    obtain ⟨g₁, hreg, hinstall⟩ := exists_of_bind hinstall
    have hd : d.id ∉ done.map Declaration.id := by
      rw [List.map_append, List.nodup_append] at hnodup
      exact fun hmem => hnodup.2.2 _ hmem _ List.mem_cons_self rfl
    have hnext := h.register hd (hdependencies d List.mem_cons_self) hreg
    have := ih hnext (by rwa [List.append_assoc]) (fun d' hd' =>
      hdependencies d' (List.mem_cons_of_mem _ hd')) hinstall
    rwa [List.append_assoc] at this

theorem sameStore_installAll {ds : List Declaration}
    (hinstall : p.installAll limit ds g = .ok g') : g.SameStore g' := by
  induction ds generalizing g with
  | nil =>
    cases hinstall
    exact .refl _
  | cons d ds ih =>
    rw [Program.installAll] at hinstall
    obtain ⟨g₁, hreg, hinstall⟩ := exists_of_bind hinstall
    exact (Graph.SameStore.register hreg).trans (ih hinstall)

/-- The graph of a program before its first walk. -/
structure Installed (p : Program) (limit : Nat) (g : Graph) : Prop where
  /-- The shape is sound. -/
  wellFormed : g.WellFormed
  /-- The nodes are those of the program. -/
  mem_ids : ∀ j, j ∈ g.ids ↔ j ∈ p.nodes.map Declaration.id
  /-- None of them has run. -/
  core : ∀ d ∈ p.nodes,
    (g.node? d.id).map Node.core = some (Node.fresh d.dependencies (d.body p limit)).core

namespace Installed

/-- Every node is that of a declaration. -/
theorem exists_declaration (h : p.Installed limit g) {j : NodeId} {n : Node}
    (hn : g.node? j = some n) :
    ∃ d ∈ p.nodes, d.id = j ∧ n.core = (Node.fresh d.dependencies (d.body p limit)).core := by
  obtain ⟨d, hd, rfl⟩ := List.mem_map.1 ((h.mem_ids j).1 (Graph.mem_ids_iff.2 ⟨n, hn⟩))
  have hcore := h.core d hd
  rw [hn] at hcore
  exact ⟨d, hd, rfl, Option.some.inj hcore⟩

theorem mem_dependencies (h : p.Installed limit g) {d : Declaration} (hd : d ∈ p.nodes)
    {j : NodeId} : g.DependsOn d.id j ↔ j ∈ d.dependencies := by
  rw [Graph.DependsOn, Graph.dependenciesOf_of_core (h.core d hd)]
  exact NodeId.mem_set

/-- The edges of the graph are those of the program. -/
theorem dependsOn_eq (h : p.Installed limit g) : g.DependsOn = p.DependsOn := by
  funext a b
  refine propext ⟨fun hab => ?_, fun hab => ?_⟩
  · obtain ⟨n, hn⟩ := Graph.mem_ids_iff.1 (h.wellFormed.mem_ids_of_dependsOn hab).1
    obtain ⟨d, hd, rfl, -⟩ := h.exists_declaration hn
    exact dependsOn_of_mem hd ((h.mem_dependencies hd).1 hab)
  · obtain ⟨d, hd, hmem⟩ := List.mem_flatMap.1 hab
    obtain ⟨b', hb', heq⟩ := List.mem_map.1 hmem
    cases heq
    exact (h.mem_dependencies hd).2 hb'

end Installed

end Program

namespace Script

/-- **Registering the nodes of a script in an empty graph gives the graph of its program.** -/
theorem SplitsInto.installed {script : Script} {p : Program} {limit : Nat} {g g' : Graph}
    (h : script.SplitsInto p) (hg : g.WellFormed) (hempty : g.ids = [])
    (hinstall : p.install limit g = .ok g') : p.Installed limit g' := by
  have hstart : p.Registers limit [] g :=
    ⟨hg, List.forall_mem_nil _, fun j hj => by rw [hempty] at hj; cases hj⟩
  have hend : p.Registers limit ([] ++ p.nodes) g' :=
    hstart.installAll h.nodup_nodes (fun d hd => (h.sorted_dependencies hd).nodup) hinstall
  rw [List.nil_append] at hend
  refine ⟨hend.wellFormed, fun j => ⟨fun hj => ?_, fun hj => ?_⟩, hend.declared⟩
  · by_contra hnew
    obtain ⟨-, d, hd, hdep⟩ := hend.placeholder j hj hnew
    exact hnew (h.mem_ids_of_mem_dependencies hd hdep)
  · obtain ⟨d, hd, rfl⟩ := List.mem_map.1 hj
    obtain ⟨n, hn, -⟩ := Option.map_eq_some_iff.1 (hend.declared d hd)
    exact Graph.mem_ids_iff.2 ⟨n, hn⟩

end Script

end ReactiveScript

import ReactiveScript.Proofs.Program.Cycle
import ReactiveScript.Proofs.Program.Installed

/-!
# Programs that are accepted can be installed

A text is split into nodes only if the nodes do not depend on each other in a cycle.  The graph does
not know that: it looks for a cycle anew whenever a node is registered, among the edges that it has
by then.  These are edges of the program, so no registration is refused.

* `Program.Registers.dependsOn` — every edge so far is one of the program.
* `Program.accepted_program_installs` — what the graph of an accepted program is.
-/

set_option autoImplicit false

namespace ReactiveScript

open Relation

namespace Graph

/-- The edges of a graph: dependency first. -/
def edges (g : Graph) : List (NodeId × NodeId) :=
  g.ids.flatMap fun id => (g.dependenciesOf id).map fun d => (d, id)

end Graph

/-! ## An accepted program has no cycle -/

namespace Program

variable {p : Program} {limit : Nat} {done : List Declaration} {g : Graph}

theorem find?_of_ofScript {file : String} {script : Script} (h : ofScript file script = .ok p) :
    Cycle.find? p.nodes = none := by
  rw [ofScript] at h
  obtain ⟨slots, -, h⟩ := exists_of_bind h
  obtain ⟨nodes, -, h⟩ := exists_of_bind h
  split at h
  · cases h
  · rename_i hfind
    cases h
    exact hfind

theorem find?_of_ofSource {file source : String} (h : ofSource file source = .ok p) :
    Cycle.find? p.nodes = none := by
  rw [ofSource] at h
  split at h
  · cases h
  · exact find?_of_ofScript h

/-- What a node depends on is what is declared for its id. -/
theorem DependsOn.leads (hids : (p.nodes.map Declaration.id).Nodup) {a b : NodeId}
    (h : p.DependsOn a b) : Cycle.Leads (Cycle.declared p.nodes) a b := by
  obtain ⟨d, hd, hmem⟩ := List.mem_flatMap.1 h
  obtain ⟨_, hb, heq⟩ := List.mem_map.1 hmem
  cases heq
  rw [Cycle.Leads, Cycle.declared_of_mem hids hd]
  exact hb

/-- **The nodes of an accepted program do not depend on each other in a cycle.** -/
theorem acyclic_of_ofSource {file source : String} (h : ofSource file source = .ok p)
    (hids : (p.nodes.map Declaration.id).Nodup) (a : NodeId) : ¬ TransGen p.DependsOn a a :=
  fun ha => Cycle.find?_eq_none_iff.1 (find?_of_ofSource h) a
    (TransGen.mono (fun _ _ => DependsOn.leads hids) _ _ ha)

/-! ## No registration is refused -/

/-- **The edges of a graph in which some nodes have been registered are edges of the program.** -/
theorem Registers.dependsOn (h : p.Registers limit done g) (hdone : done ⊆ p.nodes) {a b : NodeId}
    (hab : g.DependsOn a b) : p.DependsOn a b := by
  have ha : a ∈ g.ids := Graph.mem_ids_of_mem_dependenciesOf hab
  by_cases hmem : a ∈ done.map Declaration.id
  · obtain ⟨d, hd, rfl⟩ := List.mem_map.1 hmem
    rw [Graph.DependsOn, Graph.dependenciesOf_of_core (h.declared d hd)] at hab
    exact dependsOn_of_mem (hdone hd) (NodeId.mem_set.1 hab)
  · rw [Graph.DependsOn, Graph.dependenciesOf_of_core (h.placeholder a ha hmem).1] at hab
    cases hab

/-- A node can be registered if what it depends on does not depend on it. -/
theorem Registers.exists_register (h : p.Registers limit done g) (hdone : done ⊆ p.nodes)
    (hacyclic : ∀ a, ¬ TransGen p.DependsOn a a) {d : Declaration} (hd : d ∈ p.nodes) :
    ∃ g', g.register d.id d.dependencies (d.body p limit) = .ok g' := by
  refine Graph.exists_register_of_closing? (h.wellFormed.closing?_eq_none fun j hj => ?_) _
  have hedge : p.DependsOn d.id j := dependsOn_of_mem hd (NodeId.mem_distinct.1 hj)
  refine ⟨fun heq => hacyclic d.id (.single (heq ▸ hedge)), fun hback => hacyclic d.id ?_⟩
  exact .head' hedge (ReflTransGen.mono (fun _ _ => h.dependsOn hdone) _ _ hback)

/-- All remaining nodes can be registered. -/
theorem Registers.exists_installAll {ds : List Declaration} (h : p.Registers limit done g)
    (hnodes : done ++ ds = p.nodes) (hids : (p.nodes.map Declaration.id).Nodup)
    (hdependencies : ∀ d ∈ p.nodes, d.dependencies.Nodup)
    (hacyclic : ∀ a, ¬ TransGen p.DependsOn a a) : ∃ g', p.installAll limit ds g = .ok g' := by
  induction ds generalizing done g with
  | nil => exact ⟨g, rfl⟩
  | cons d ds ih =>
    have hd : d ∈ p.nodes := hnodes ▸ List.mem_append_right _ List.mem_cons_self
    have hnew : d.id ∉ done.map Declaration.id := by
      rw [← hnodes, List.map_append, List.nodup_append] at hids
      exact fun hmem => hids.2.2 _ hmem _ List.mem_cons_self rfl
    obtain ⟨g₁, hreg⟩ :=
      h.exists_register (hnodes ▸ List.subset_append_left _ _) hacyclic hd
    obtain ⟨g', hinstall⟩ := ih (h.register hnew (hdependencies d hd) hreg)
      (by rw [List.append_assoc, List.singleton_append, hnodes])
    refine ⟨g', ?_⟩
    rw [Program.installAll, hreg]
    exact hinstall

/-! ## The graph of an accepted program -/

namespace Installed

/-- What is declared for a node is what the graph knows of it. -/
theorem exists_node (h : p.Installed limit g) {d : Declaration} (hd : d ∈ p.nodes)
    (hsorted : NodeId.Sorted d.dependencies) :
    ∃ n, g.node? d.id = some n ∧ n.isPlaceholder = false ∧ n.dependencies = d.dependencies ∧
      n.params = d.dependencies := by
  obtain ⟨n, hn, hcore⟩ := Option.map_eq_some_iff.1 (h.core d hd)
  have hdependencies : n.dependencies = NodeId.set d.dependencies := congrArg Node.dependencies hcore
  exact ⟨n, hn, congrArg Node.isPlaceholder hcore, hdependencies.trans hsorted.set_eq,
    congrArg Node.params hcore⟩

theorem ids_perm (h : p.Installed limit g) (hids : (p.nodes.map Declaration.id).Nodup) :
    g.ids.Perm (p.nodes.map Declaration.id) :=
  (List.perm_ext_iff_of_nodup h.wellFormed.ids_nodup hids).2 h.mem_ids

/-- The edges of the graph are those of the program. -/
theorem edges_perm (h : p.Installed limit g) (hids : (p.nodes.map Declaration.id).Nodup)
    (hsorted : ∀ d ∈ p.nodes, NodeId.Sorted d.dependencies) : g.edges.Perm p.edges := by
  have hedges : p.edges = (p.nodes.map Declaration.id).flatMap fun id =>
      (g.dependenciesOf id).map fun d => (d, id) := by
    rw [Program.edges, List.flatMap_map]
    refine List.flatMap_congr fun d hd => ?_
    obtain ⟨n, hn, -, hdependencies, -⟩ := h.exists_node hd (hsorted d hd)
    rw [Graph.dependenciesOf_eq hn, hdependencies]
  rw [hedges]
  exact (h.ids_perm hids).flatMap_right _

end Installed

/-- A graph without nodes takes the nodes of an accepted program. -/
theorem exists_installed {file source : String} {script : Script}
    (h : ofSource file source = .ok p) (hsplits : script.SplitsInto p) (limit : Nat)
    (retry : Option RetryPolicy) (timeout : Option Period) :
    ∃ g, p.install limit (.empty retry timeout) = .ok g ∧ p.Installed limit g := by
  have hids := hsplits.nodup_nodes
  have hempty := Graph.wellFormed_empty retry timeout
  have hstart : p.Registers limit [] (.empty retry timeout) :=
    ⟨hempty, List.forall_mem_nil _, nofun⟩
  obtain ⟨g, hinstall⟩ := hstart.exists_installAll (List.nil_append _) hids
    (fun d hd => (hsplits.sorted_dependencies hd).nodup) (acyclic_of_ofSource h hids)
  exact ⟨g, hinstall, hsplits.installed hempty rfl hinstall⟩

/-- **An accepted program can be installed.**  Its nodes have different ids.  In a graph without
nodes, none of them is refused, and then the graph has these nodes and no others: none stands for
one to come, each depends on what was declared and is given it as parameters, and the edges, as they
are known at either end, are those of the program. -/
theorem accepted_program_installs {file source : String} (h : ofSource file source = .ok p) :
    (p.nodes.map Declaration.id).Nodup ∧
      ∀ (limit : Nat) (retry : Option RetryPolicy) (timeout : Option Period),
        ∃ g, p.install limit (.empty retry timeout) = .ok g ∧
          g.ids.Perm (p.nodes.map Declaration.id) ∧
          (∀ d ∈ p.nodes, ∃ n, g.node? d.id = some n ∧ n.isPlaceholder = false ∧
            n.dependencies = d.dependencies ∧ n.params = d.dependencies) ∧
          g.edges.Perm p.edges ∧
          ∀ dependency dependent, (dependency, dependent) ∈ p.edges ↔
            dependent ∈ g.dependentsOf dependency := by
  obtain ⟨script, -, hsplits, -⟩ := Script.exists_splitsInto_of_ofSource h
  have hids := hsplits.nodup_nodes
  have hsorted : ∀ d ∈ p.nodes, NodeId.Sorted d.dependencies := fun d => hsplits.sorted_dependencies
  refine ⟨hids, fun limit retry timeout => ?_⟩
  obtain ⟨g, hinstall, hg⟩ := exists_installed h hsplits limit retry timeout
  refine ⟨g, hinstall, hg.ids_perm hids, fun d hd => hg.exists_node hd (hsorted d hd),
    hg.edges_perm hids hsorted, fun dependency dependent => ?_⟩
  rw [← hg.wellFormed.mirrored]
  exact iff_of_eq (congrFun (congrFun hg.dependsOn_eq dependent) dependency).symm

/-! ## A statement that comes before what it reads -/

/-- A text that reads a variable assigned below it. -/
def aheadText : String := "text(str(y))\ny = None\n"

/-- The script that it spells. -/
def aheadScript : Script := ⟨[
  .expr ⟨1, 1⟩ (.call ⟨1, 1⟩ "text" [.call ⟨1, 6⟩ "str" [.name ⟨1, 10⟩ "y"] []] []),
  .assign ⟨2, 1⟩ "y" (.literal ⟨2, 5⟩ .null)]⟩

/-- Its nodes: the first one depends on the second one. -/
def aheadProgram : Program where
  file := "app.tr"
  nodes := [
    ⟨⟨"atom_00001_001_text"⟩, "text", ⟨1, 1⟩, none, [⟨"atom_00002_001_expr"⟩], ["y"],
      .expression (.call ⟨1, 1⟩ "text" [.call ⟨1, 6⟩ "str" [.name ⟨1, 10⟩ "param0"] []] []), true⟩,
    ⟨⟨"atom_00002_001_expr"⟩, "expr", ⟨2, 1⟩, some "y", [], [],
      .expression (.literal ⟨2, 5⟩ .null), false⟩]
  functions := []
  globals := [("y", ⟨"atom_00002_001_expr"⟩)]

/-- The theorem applies to a text whose first node is registered before the one it depends on. -/
theorem accepted_program_installs_of_ahead : ofSource "app.tr" aheadText = .ok aheadProgram ∧
    ∃ g, aheadProgram.install 64 (.empty none none) = .ok g ∧
      g.edges.Perm [(⟨"atom_00002_001_expr"⟩, ⟨"atom_00001_001_text"⟩)] := by
  have hscript : Script.ofSource aheadText = .ok aheadScript := by cbv
  have hsplit : ofScript "app.tr" aheadScript = .ok aheadProgram := by cbv
  have hsource : ofSource "app.tr" aheadText = .ok aheadProgram := by
    rw [ofSource, hscript]
    exact hsplit
  obtain ⟨g, hinstall, -, -, hedges, -⟩ := (accepted_program_installs hsource).2 64 none none
  exact ⟨hsource, g, hinstall, hedges⟩

end Program

end ReactiveScript

import Mathlib.Data.List.Lex
import ReactiveScript.Proofs.Graph.GlitchFree

/-!
# The least linear order

There are in general many ways to list the nodes of a graph with every dependency before its
dependents (`Graph.Linear`).  `Graph.order` is one of them, and in the dictionary order by ids it is
the least (`order_is_least_linear`).  So it is determined by the nodes and what they depend on, and
not by how the graph came to be.
-/

set_option autoImplicit false

namespace ReactiveScript

namespace NodeId

/-- One list of nodes comes before another in the dictionary order by ids. -/
def Precedes (ms ns : List NodeId) : Prop := List.Lex (fun m n => m.text < n.text) ms ns

theorem not_precedes_of_precedes {ms ns : List NodeId} (h : Precedes ms ns) :
    ¬ Precedes ns ms :=
  have : Std.Asymm fun m n : NodeId => m.text < n.text := ⟨fun _ _ => lt_asymm⟩
  Std.Asymm.asymm (r := List.Lex fun m n : NodeId => m.text < n.text) _ _ h

end NodeId

namespace Graph

variable {g g' : Graph} {done rest ns : List NodeId}

/-- All nodes in a row, every one behind those it depends on. -/
structure Linear (g : Graph) (ns : List NodeId) : Prop where
  /-- No node stands there twice. -/
  nodup : ns.Nodup
  /-- It is the nodes of the graph that stand there. -/
  mem_iff : ∀ id, id ∈ ns ↔ id ∈ g.ids
  /-- What a node depends on stands before it. -/
  mem_of_dependsOn : ∀ pre a post, ns = pre ++ a :: post → ∀ b, g.DependsOn a b → b ∈ pre

/-- With fewer edges there are more ways. -/
theorem Linear.of_dependsOn (h : g.Linear ns) (hids : ∀ id, id ∈ g'.ids ↔ id ∈ g.ids)
    (hdependsOn : ∀ a b, g'.DependsOn a b → g.DependsOn a b) : g'.Linear ns where
  nodup := h.nodup
  mem_iff id := (h.mem_iff id).trans (hids id).symm
  mem_of_dependsOn pre a post hns b hab :=
    h.mem_of_dependsOn pre a post hns b (hdependsOn a b hab)

/-- Whatever stands next in a row of all nodes is ready when those before it have been listed. -/
theorem Linear.ready {a : NodeId} (h : g.Linear (done ++ a :: rest)) : g.Ready done a where
  mem_ids := (h.mem_iff a).1 (by simp)
  not_mem hdone := (List.nodup_append.1 h.nodup).2.2 a hdone a (by simp) rfl
  dependencies_subset b hb := h.mem_of_dependsOn done a rest rfl b hb

/-- A listing comes before any other way to go on from the nodes that have been listed: where the
two first differ, the listing takes the least of the nodes that are ready. -/
theorem Lists.eq_or_precedes (h : g.Lists done rest) (hns : g.Linear (done ++ ns)) :
    rest = ns ∨ NodeId.Precedes rest ns := by
  induction h generalizing ns with
  | nil hsub =>
    cases ns with
    | nil => exact Or.inl rfl
    | cons a ns => exact absurd (hsub hns.ready.mem_ids) hns.ready.not_mem
  | @cons done rest id hready hleast _ ih =>
    cases ns with
    | nil =>
      have hid := (hns.mem_iff id).2 hready.mem_ids
      rw [List.append_nil] at hid
      exact absurd hid hready.not_mem
    | cons a ns =>
      rcases hleast a hns.ready with rfl | hlt
      · rcases ih (by simpa using hns) with rfl | hrest
        · exact Or.inl rfl
        · exact Or.inr (List.Lex.cons hrest)
      · exact Or.inr (List.Lex.rel hlt)

/-- A row is a listing if every node in it comes by its id before all nodes behind it that are ready
when it is taken. -/
theorem Lists.eq_of_least (h : g.Lists done rest) (hns : g.Linear (done ++ ns))
    (hleast : ∀ pre a post, ns = pre ++ a :: post →
      ∀ b ∈ post, g.dependenciesOf b ⊆ done ++ pre → a.text < b.text) : rest = ns := by
  induction h generalizing ns with
  | nil hsub =>
    cases ns with
    | nil => rfl
    | cons a ns => exact absurd (hsub hns.ready.mem_ids) hns.ready.not_mem
  | @cons done rest id hready hfirst _ ih =>
    have hid : id ∈ ns :=
      (List.mem_append.1 ((hns.mem_iff id).2 hready.mem_ids)).resolve_left hready.not_mem
    cases ns with
    | nil => cases hid
    | cons a ns =>
      rcases hfirst a hns.ready with rfl | hlt
      · refine congrArg (a :: ·) (ih (by simpa using hns) fun pre b post heq c hc hsub => ?_)
        exact hleast (a :: pre) b post (congrArg (a :: ·) heq) c hc (by simpa using hsub)
      · -- The node taken first stands further behind, and is ready all the same.
        rcases List.mem_cons.1 hid with rfl | hid
        · exact absurd hlt (lt_irrefl _)
        · refine absurd hlt (lt_asymm (hleast [] a ns rfl id hid ?_))
          rw [List.append_nil]
          exact hready.dependencies_subset

theorem WellFormed.linear_order (h : g.WellFormed) : g.Linear g.order where
  nodup := h.nodup_order
  mem_iff _ := h.mem_order_iff
  mem_of_dependsOn pre a post horder b hab := by
    have hlists := h.lists_order
    rw [horder] at hlists
    simpa using (hlists.split pre).dependencies_subset hab

/-- The order of execution comes before any other row of all nodes. -/
theorem WellFormed.order_eq_or_precedes (h : g.WellFormed) (hns : g.Linear ns) :
    g.order = ns ∨ NodeId.Precedes g.order ns :=
  h.lists_order.eq_or_precedes hns

/-- A row of all nodes is the order of execution if and only if every node in it comes by its id
before all nodes behind it that depend on nothing but what stands before it. -/
theorem WellFormed.order_eq_iff (h : g.WellFormed) (hns : g.Linear ns) :
    g.order = ns ↔ ∀ pre a post, ns = pre ++ a :: post →
      ∀ b ∈ post, g.dependenciesOf b ⊆ pre → a.text < b.text := by
  refine ⟨?_, fun hleast => h.lists_order.eq_of_least hns hleast⟩
  rintro rfl pre a post horder b hb hsub
  have hnodup := horder ▸ h.nodup_order
  have hready : g.Ready pre b := by
    refine ⟨h.mem_order_iff.1 (horder ▸ by simp [hb]), fun hpre => ?_, hsub⟩
    exact (List.nodup_append.1 hnodup).2.2 b hpre b (List.mem_cons_of_mem _ hb) rfl
  cases (horder ▸ h.lists_order : g.Lists [] (pre ++ a :: post)).drop pre with
  | cons _ hleast _ =>
    refine (hleast b hready).resolve_left fun heq => ?_
    exact (List.nodup_cons.1 (List.nodup_append.1 hnodup).2.1).1 (heq ▸ hb)

/-- **The order of execution is the least linear order**: all nodes stand in it, each behind those
it depends on, and of all such rows it comes first in the dictionary order by ids.  Hence graphs
with the same nodes and the same edges are executed in the same order. -/
theorem order_is_least_linear (h : g.WellFormed) :
    g.Linear g.order ∧
    (∀ ns, g.Linear ns → g.order = ns ∨ NodeId.Precedes g.order ns) ∧
    ∀ g' : Graph, g'.WellFormed → (∀ id, id ∈ g'.ids ↔ id ∈ g.ids) →
      (∀ a b, g'.DependsOn a b ↔ g.DependsOn a b) → g'.order = g.order := by
  refine ⟨h.linear_order, fun ns => h.order_eq_or_precedes, fun g' h' hids hdependsOn => ?_⟩
  have hlinear : g'.Linear g.order :=
    h.linear_order.of_dependsOn hids fun a b => (hdependsOn a b).1
  have hlinear' : g.Linear g'.order :=
    h'.linear_order.of_dependsOn (fun id => (hids id).symm) fun a b => (hdependsOn a b).2
  -- Each of the two would come before the other.
  rcases h.order_eq_or_precedes hlinear' with heq | hlt
  · exact heq.symm
  · rcases h'.order_eq_or_precedes hlinear with heq | hgt
    · exact heq
    · exact absurd hgt (NodeId.not_precedes_of_precedes hlt)

/-- Three nodes, of which the first depends on the third. -/
def threeNodes : Except GraphError Graph :=
  (empty none none).registerAll
    [(⟨"a"⟩, [⟨"c"⟩], .constant .null), (⟨"b"⟩, [], .constant .null), (⟨"c"⟩, [], .constant .null)]

/-- Three nodes, of which the first depended on the second until it was given another body, which
is going to read the third. -/
def redefinedNodes : Except GraphError Graph :=
  (empty none none).registerAll
    [(⟨"b"⟩, [], .constant .null), (⟨"a"⟩, [⟨"b"⟩], .constant .null), (⟨"c"⟩, [], .constant .null),
      (⟨"a"⟩, [], .reading ⟨"c"⟩)]

/-- Three nodes in a chain: the second depends on the first, and the first on the third. -/
def chainedNodes : Except GraphError Graph :=
  (empty none none).registerAll
    [(⟨"a"⟩, [⟨"c"⟩], .constant .null), (⟨"b"⟩, [⟨"a"⟩], .constant .null),
      (⟨"c"⟩, [], .constant .null)]

/-- A graph has the same nodes as another one, and no other edges. -/
def within (g g' : Graph) : Bool :=
  NodeId.set g.ids == NodeId.set g'.ids &&
    g.ids.all fun a => (g.dependenciesOf a).all (g'.dependenciesOf a).contains

theorem mem_ids_iff_of_within (h : g.within g' = true) (id : NodeId) :
    id ∈ g.ids ↔ id ∈ g'.ids := by
  have hids := eq_of_beq (Bool.and_eq_true_iff.1 h).1
  rw [← NodeId.mem_set, hids, NodeId.mem_set]

theorem dependsOn_of_within (h : g.within g' = true) {a b : NodeId} (hab : g.DependsOn a b) :
    g'.DependsOn a b := by
  have hall := List.all_eq_true.1 (Bool.and_eq_true_iff.1 h).2 a (mem_ids_of_mem_dependenciesOf hab)
  exact List.contains_iff_mem.1 (List.all_eq_true.1 hall b hab)

/-- The theorem applies to graphs that came to the same nodes and edges in different ways, and to
another linear order. -/
theorem order_is_least_linear_of_three :
    ∃ g g' g'' : Graph, threeNodes = .ok g ∧ redefinedNodes = .ok g' ∧ chainedNodes = .ok g'' ∧
      g.WellFormed ∧ (g'.execute none []).2.WellFormed ∧ (g'.execute none []).2.order = g.order ∧
      g.Linear g''.order ∧ NodeId.Precedes g.order g''.order := by
  obtain ⟨g, hthree, htest⟩ := exists_built_of_any threeNodes
    (fun g => redefinedNodes.toOption.any (fun g' => g.within (g'.execute none []).2 &&
        (g'.execute none []).2.within g) &&
      chainedNodes.toOption.any fun g'' => g.within g'' && !(g.order == g''.order)) (by cbv)
  simp only [Bool.and_eq_true] at htest
  obtain ⟨g', hredefined, htest'⟩ := exists_built_of_any _ _ htest.1
  obtain ⟨g'', hchained, htest''⟩ := exists_built_of_any _ _ htest.2
  simp only [Bool.and_eq_true, Bool.not_eq_true', beq_eq_false_iff_ne] at htest' htest''
  have hg : g.WellFormed := (Reachable.registerAll (.empty none none) hthree).wellFormed
  have hg' : (g'.execute none []).2.WellFormed :=
    ((Reachable.registerAll (.empty none none) hredefined).execute none []).wellFormed
  have hg'' : g''.WellFormed := (Reachable.registerAll (.empty none none) hchained).wellFormed
  have hlinear : g.Linear g''.order :=
    hg''.linear_order.of_dependsOn (mem_ids_iff_of_within htest''.1)
      fun _ _ => dependsOn_of_within htest''.1
  obtain ⟨-, hleast, hsame⟩ := order_is_least_linear hg
  refine ⟨g, g', g'', hthree, hredefined, hchained, hg, hg', ?_, hlinear, ?_⟩
  · exact hsame _ hg' (mem_ids_iff_of_within htest'.2) fun a b =>
      ⟨dependsOn_of_within htest'.2, dependsOn_of_within htest'.1⟩
  · exact (hleast _ hlinear).resolve_left htest''.2

end Graph

end ReactiveScript

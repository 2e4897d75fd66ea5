import ReactiveScript.Proofs.Program.Cycle
import ReactiveScript.Proofs.Table

/-!
# The search for a cycle step by step

`Cycle.find?` goes down the dependencies by recursion.  Here the same search is a loop: it marks
every node as it enters it and again as it leaves it, and keeps a stack of the nodes on its path,
each with the number of its dependencies that it has followed.  A step follows one dependency,
leaves one node or takes up one place to start from.

* `Cycle.Moment.step` — one step of the loop.
* `Cycle.Moment.Sound` — the nodes that have been entered and not left are those of the path.
* `Cycle.Moment.left` — the number of steps that can follow: every step takes one away.
* `Cycle.search_is_exact` — the loop ends, and with what `Cycle.find?` says: an edge that closes a
  cycle, if and only if there is one.
-/

set_option autoImplicit false

namespace ReactiveScript

namespace Cycle

open Relation

/-- How far the search has come with a node that it has entered. -/
inductive Mark where
  /-- It is on the path. -/
  | entered
  /-- It has been left. -/
  | closed

/-- A moment of the search. -/
structure Moment where
  /-- The nodes that have been entered. -/
  marks : Table NodeId Mark
  /-- The path, last node first, each with the number of its dependencies that have been
  followed. -/
  stack : List (NodeId × Nat)
  /-- The nodes from which the search is still to start. -/
  starts : List NodeId

/-- The search goes on, or it is over, with an edge that closes a cycle or without one. -/
abbrev Turn : Type := Moment ⊕ Option Edge

namespace Moment

/-- Follow the next dependency of the last node of the path, leave that node, or start anew. -/
def step (next : NodeId → List NodeId) (s : Moment) : Turn :=
  match s.stack with
  | [] =>
    match s.starts with
    | [] => .inr none
    | n :: ns =>
      if Table.has n s.marks then .inl { s with starts := ns }
      else .inl ⟨Table.put n .entered s.marks, [(n, 0)], ns⟩
  | (n, i) :: path =>
    match (next n)[i]? with
    | none => .inl { s with marks := Table.put n .closed s.marks, stack := path }
    | some d =>
      match Table.get? d s.marks with
      | some .entered => .inr (some ⟨n, d⟩)
      | some .closed => .inl { s with stack := (n, i + 1) :: path }
      | none => .inl ⟨Table.put d .entered s.marks, (d, 0) :: (n, i + 1) :: path, s.starts⟩

/-- What the search is over with, if it is after some number of steps. -/
def run (next : NodeId → List NodeId) : Nat → Moment → Option (Option Edge)
  | 0, _ => none
  | k + 1, s =>
    match s.step next with
    | .inl s => run next k s
    | .inr e => some e

/-- The search before its first step. -/
def start (nodes : List NodeId) : Moment := ⟨[], [], nodes⟩

variable {next : NodeId → List NodeId} {nodes : List NodeId} {s s' : Moment}

/-! ## What every step keeps -/

/-- Only nodes are entered, and those that have not been left are those of the path. -/
structure Sound (nodes : List NodeId) (s : Moment) : Prop where
  /-- No node is on the path twice. -/
  nodup : (s.stack.map Prod.fst).Nodup
  /-- The path is what has been entered and not left. -/
  entered_iff : ∀ n, Table.get? n s.marks = some .entered ↔ n ∈ s.stack.map Prod.fst
  /-- The search starts from nodes only. -/
  starts_subset : s.starts ⊆ nodes
  /-- The path consists of nodes. -/
  stack_subset : s.stack.map Prod.fst ⊆ nodes

theorem sound_start (nodes : List NodeId) : Sound nodes (start nodes) where
  nodup := List.nodup_nil
  entered_iff n := by simp [start, Table.get?]
  starts_subset := List.Subset.refl _
  stack_subset := List.nil_subset _

/-- The nodes that have not been entered. -/
def fresh (nodes : List NodeId) (marks : Table NodeId Mark) : List NodeId :=
  nodes.filter fun n => !Table.has n marks

/-- A path, each node with the dependencies still to follow. -/
def path (next : NodeId → List NodeId) (stack : List (NodeId × Nat)) : List Stop :=
  stack.map fun e => ⟨e.1, (next e.1).drop e.2⟩

/-- What is left to be done from a moment on, by recursion. -/
def rest (next : NodeId → List NodeId) (nodes : List NodeId) (s : Moment) :
    Except Edge (List NodeId) := do
  let fresh ← follow next (fresh nodes s.marks) (path next s.stack)
  search next fresh s.starts

/-- The number of steps that can follow: one for each place to start from, and for each node that is
on the path or has not been entered one for each dependency still to follow and one to leave it. -/
def left (next : NodeId → List NodeId) (nodes : List NodeId) (s : Moment) : Nat :=
  s.starts.length + work (path next s.stack) +
    work ((fresh nodes s.marks).map fun n => ⟨n, next n⟩)

/-- What a recursion ends with: an edge, or nothing. -/
def verdict : Except Edge (List NodeId) → Option Edge
  | .ok _ => none
  | .error e => some e

/-- After a step the search is sound as before, with one step less to follow and the same things
left to be done; or it is over, with what was left to be done. -/
def Proceeds (next : NodeId → List NodeId) (nodes : List NodeId) (s : Moment) : Turn → Prop
  | .inl s' => Sound nodes s' ∧ s'.rest next nodes = s.rest next nodes ∧
      s'.left next nodes + 1 = s.left next nodes
  | .inr e => verdict (s.rest next nodes) = e

section

variable {marks : Table NodeId Mark} {stack : List (NodeId × Nat)} {starts : List NodeId}
  {n d : NodeId} {i : Nat}

/-! ## Entering and leaving nodes -/

theorem mem_fresh : n ∈ fresh nodes marks ↔ n ∈ nodes ∧ Table.get? n marks = none := by
  simp [fresh, Table.has]

/-- A node that is marked is no longer fresh. -/
theorem fresh_put (hnodup : nodes.Nodup) (mark : Mark) :
    fresh nodes (Table.put n mark marks) = (fresh nodes marks).erase n := by
  rw [fresh, fresh, List.Nodup.erase_eq_filter (hnodup.filter _), List.filter_filter]
  refine List.filter_congr fun j _ => ?_
  rw [Table.has, Table.get?_put]
  by_cases hj : n = j
  · simp [hj]
  · simp [hj, Ne.symm hj, Table.has]

theorem fresh_nil (nodes : List NodeId) : fresh nodes [] = nodes :=
  List.filter_eq_self.2 fun _ _ => rfl

theorem map_node_path (next : NodeId → List NodeId) (stack : List (NodeId × Nat)) :
    (path next stack).map Stop.node = stack.map Prod.fst := by
  rw [path, List.map_map]
  rfl

/-- A node of the path is not fresh. -/
theorem Sound.not_mem_fresh (h : Sound nodes ⟨marks, stack, starts⟩)
    (hn : n ∈ stack.map Prod.fst) : n ∉ fresh nodes marks := fun hmem => by
  have hentered := (h.entered_iff n).2 hn
  rw [(mem_fresh.1 hmem).2] at hentered
  cases hentered

/-- A fresh node can be entered from the end of the path. -/
theorem Sound.enter (h : Sound nodes ⟨marks, stack, starts⟩) (hfresh : n ∈ fresh nodes marks) :
    Sound nodes ⟨Table.put n .entered marks, (n, 0) :: stack, starts⟩ where
  nodup := List.nodup_cons.2 ⟨fun hmem => h.not_mem_fresh hmem hfresh, h.nodup⟩
  entered_iff j := by
    show Table.get? j (Table.put n .entered marks) = _ ↔ j ∈ n :: stack.map Prod.fst
    rw [Table.get?_put, List.mem_cons, ← h.entered_iff j]
    by_cases hj : n = j
    · simp [hj]
    · simp [hj, Ne.symm hj]
  starts_subset := h.starts_subset
  stack_subset := List.cons_subset.2 ⟨(mem_fresh.1 hfresh).1, h.stack_subset⟩

/-- The last node of the path can be left. -/
theorem Sound.leave (h : Sound nodes ⟨marks, (n, i) :: stack, starts⟩) :
    Sound nodes ⟨Table.put n .closed marks, stack, starts⟩ where
  nodup := (List.nodup_cons.1 h.nodup).2
  entered_iff j := by
    have hj : _ ↔ j ∈ n :: stack.map Prod.fst := h.entered_iff j
    show Table.get? j (Table.put n .closed marks) = _ ↔ _
    rw [Table.get?_put]
    split
    · rename_i heq
      subst heq
      refine ⟨fun hclosed => ?_, fun hmem => absurd hmem (List.nodup_cons.1 h.nodup).1⟩
      cases hclosed
    · rename_i hne
      rw [hj, List.mem_cons]
      exact or_iff_right (Ne.symm hne)
  starts_subset := h.starts_subset
  stack_subset := (List.cons_subset.1 h.stack_subset).2

theorem work_perm {p q : List Stop} (h : p.Perm q) : work p = work q := by
  induction h with
  | nil => rfl
  | cons e _ ih => rw [work, work, ih]
  | swap e f p =>
    rw [work, work, work, work]
    omega
  | trans _ _ ih ih' => exact ih.trans ih'

/-- Entering a node takes the steps that can follow it from those for fresh nodes. -/
theorem left_enter (hnodup : nodes.Nodup) (hfresh : n ∈ fresh nodes marks) :
    left next nodes ⟨Table.put n .entered marks, (n, 0) :: stack, starts⟩
      = left next nodes ⟨marks, stack, starts⟩ := by
  have herase := work_perm ((List.perm_cons_erase hfresh).map fun n => ⟨n, next n⟩)
  rw [List.map_cons, work] at herase
  show starts.length + ((next n).length + 1 + work (path next stack)) + _
    = starts.length + work (path next stack) + _
  rw [fresh_put hnodup, herase]
  show _ = _ + ((next n).length + 1 + _)
  omega

/-! ## One step -/

theorem rest_nil (next : NodeId → List NodeId) :
    rest next nodes ⟨marks, [], starts⟩ = search next (fresh nodes marks) starts := by
  show (follow next (fresh nodes marks) [] >>= fun fresh => search next fresh starts) = _
  rw [follow]
  rfl

/-- A place to start from is skipped if it has been entered, and else it is entered. -/
theorem proceeds_start (hnodup : nodes.Nodup) (h : Sound nodes ⟨marks, [], starts⟩) :
    Proceeds next nodes ⟨marks, [], starts⟩ (step next ⟨marks, [], starts⟩) := by
  cases starts with
  | nil => exact congrArg verdict (rest_nil next)
  | cons n ns =>
    obtain ⟨hn, hns⟩ := List.cons_subset.1 h.starts_subset
    have hsound : Sound nodes ⟨marks, [], ns⟩ := ⟨h.nodup, h.entered_iff, hns, h.stack_subset⟩
    have hleft : left next nodes ⟨marks, [], ns⟩ + 1 = left next nodes ⟨marks, [], n :: ns⟩ := by
      simp only [left, List.length_cons]
      omega
    by_cases hmark : Table.has n marks = true
    · have hfresh : n ∉ fresh nodes marks := fun hmem => by
        simp [Table.has, (mem_fresh.1 hmem).2] at hmark
      have hstep : step next ⟨marks, [], n :: ns⟩ = .inl ⟨marks, [], ns⟩ := by
        simp only [step, if_pos hmark]
      rw [hstep]
      refine ⟨hsound, ?_, hleft⟩
      rw [rest_nil, rest_nil, search, if_neg hfresh]
    · have hfresh : n ∈ fresh nodes marks := mem_fresh.2 ⟨hn, by simpa [Table.has] using hmark⟩
      have hstep : step next ⟨marks, [], n :: ns⟩
          = .inl ⟨Table.put n .entered marks, [(n, 0)], ns⟩ := by
        simp only [step, if_neg hmark]
      rw [hstep]
      refine ⟨hsound.enter hfresh, ?_, (left_enter hnodup hfresh).symm ▸ hleft⟩
      rw [rest_nil, search, if_pos hfresh, rest, fresh_put hnodup]
      rfl

/-- The last node of the path is left once it has no further dependency. -/
theorem proceeds_leave (hnodup : nodes.Nodup) (hd : (next n)[i]? = none)
    (h : Sound nodes ⟨marks, (n, i) :: stack, starts⟩) :
    Proceeds next nodes ⟨marks, (n, i) :: stack, starts⟩
      (.inl ⟨Table.put n .closed marks, stack, starts⟩) := by
  have hfresh : fresh nodes (Table.put n .closed marks) = fresh nodes marks :=
    (fresh_put hnodup _).trans (List.erase_of_not_mem (h.not_mem_fresh List.mem_cons_self))
  have hpath : path next ((n, i) :: stack) = ⟨n, []⟩ :: path next stack := by
    rw [path, List.map_cons, List.drop_eq_nil_of_le (List.getElem?_eq_none_iff.1 hd)]
    rfl
  refine ⟨h.leave, ?_, ?_⟩
  · rw [rest, rest, hfresh, hpath, follow]
  · simp only [left, hfresh, hpath, work, List.length_nil]
    omega

/-- A dependency is followed: to a node that is entered, to one that has been left, or to one that
is on the path. -/
theorem proceeds_follow (hnodup : nodes.Nodup) (hnext : next n ⊆ nodes) (hd : (next n)[i]? = some d)
    (h : Sound nodes ⟨marks, (n, i) :: stack, starts⟩) :
    Proceeds next nodes ⟨marks, (n, i) :: stack, starts⟩
      (step next ⟨marks, (n, i) :: stack, starts⟩) := by
  obtain ⟨hlt, hget⟩ := List.getElem?_eq_some_iff.1 hd
  have hmem : d ∈ nodes := hnext (List.mem_of_getElem? hd)
  have hpath :
      path next ((n, i) :: stack) = ⟨n, d :: (next n).drop (i + 1)⟩ :: path next stack := by
    rw [path, List.map_cons, List.drop_eq_getElem_cons hlt, hget]
    rfl
  have honPath :
      Table.get? d marks = some .entered ↔ d = n ∨ d ∈ (path next stack).map Stop.node := by
    rw [h.entered_iff d, List.map_cons, List.mem_cons, map_node_path]
  have hfollowed : Sound nodes ⟨marks, (n, i + 1) :: stack, starts⟩ :=
    ⟨h.nodup, h.entered_iff, h.starts_subset, h.stack_subset⟩
  have hleft : left next nodes ⟨marks, (n, i + 1) :: stack, starts⟩ + 1
      = left next nodes ⟨marks, (n, i) :: stack, starts⟩ := by
    simp only [left, hpath, work, List.length_cons]
    show starts.length + (((next n).drop (i + 1)).length + 1 + work (path next stack)) + _ + 1 = _
    omega
  cases hmark : Table.get? d marks with
  | none =>
    have hfresh : d ∈ fresh nodes marks := mem_fresh.2 ⟨hmem, hmark⟩
    have hoff : ¬(d = n ∨ d ∈ (path next stack).map Stop.node) := fun hon => by
      rw [honPath.2 hon] at hmark
      cases hmark
    have hstep : step next ⟨marks, (n, i) :: stack, starts⟩
        = .inl ⟨Table.put d .entered marks, (d, 0) :: (n, i + 1) :: stack, starts⟩ := by
      simp only [step, hd, hmark]
    rw [hstep]
    refine ⟨hfollowed.enter hfresh, ?_, (left_enter hnodup hfresh).symm ▸ hleft⟩
    rw [rest, rest, fresh_put hnodup, hpath, follow, if_neg hoff, dif_pos hfresh]
    rfl
  | some mark =>
    have hfresh : d ∉ fresh nodes marks := fun hmem => by
      rw [(mem_fresh.1 hmem).2] at hmark
      cases hmark
    cases mark with
    | entered =>
      have hstep : step next ⟨marks, (n, i) :: stack, starts⟩ = .inr (some ⟨n, d⟩) := by
        simp only [step, hd, hmark]
      rw [hstep, Proceeds, rest, hpath, follow, if_pos (honPath.1 hmark)]
      rfl
    | closed =>
      have hoff : ¬(d = n ∨ d ∈ (path next stack).map Stop.node) := fun hon => by
        rw [honPath.2 hon] at hmark
        cases hmark
      have hstep : step next ⟨marks, (n, i) :: stack, starts⟩
          = .inl ⟨marks, (n, i + 1) :: stack, starts⟩ := by
        simp only [step, hd, hmark]
      rw [hstep]
      refine ⟨hfollowed, ?_, hleft⟩
      rw [rest, rest, hpath, follow, if_neg hoff, dif_neg hfresh]
      rfl

end

/-- **Every step keeps the search sound and what is left to be done, and takes one step away.** -/
theorem proceeds_step (hnodup : nodes.Nodup) (hnext : ∀ n, next n ⊆ nodes) (h : Sound nodes s) :
    Proceeds next nodes s (s.step next) := by
  obtain ⟨marks, stack, starts⟩ := s
  cases stack with
  | nil => exact proceeds_start hnodup h
  | cons e stack =>
    obtain ⟨n, i⟩ := e
    cases hd : (next n)[i]? with
    | none =>
      have hstep : step next ⟨marks, (n, i) :: stack, starts⟩
          = .inl ⟨Table.put n .closed marks, stack, starts⟩ := by
        simp only [step, hd]
      exact hstep ▸ proceeds_leave hnodup hd h
    | some d => exact proceeds_follow hnodup (hnext n) hd h

/-- **The search is over after no more steps than can follow, with what was left to be done.** -/
theorem exists_run (hnodup : nodes.Nodup) (hnext : ∀ n, next n ⊆ nodes) (h : Sound nodes s) :
    ∃ k ≤ s.left next nodes + 1, s.run next k = some (verdict (s.rest next nodes)) := by
  induction hleft : s.left next nodes using Nat.strong_induction_on generalizing s with
  | _ steps ih =>
    have hproceeds := proceeds_step hnodup hnext h
    cases hstep : s.step next with
    | inr e =>
      rw [hstep] at hproceeds
      refine ⟨1, Nat.succ_le_succ (Nat.zero_le _), ?_⟩
      rw [run, hstep]
      exact congrArg some hproceeds.symm
    | inl s' =>
      rw [hstep] at hproceeds
      obtain ⟨hsound, hrest, hless⟩ := hproceeds
      obtain ⟨k, hk, hrun⟩ := ih (s'.left next nodes) (by omega) hsound rfl
      refine ⟨k + 1, by omega, ?_⟩
      rw [run, hstep, ← hrest]
      exact hrun

end Moment

/-! ## The declarations of a program -/

section

variable {nodes : List Declaration} {a b : NodeId}

/-- One declared node has another one among its dependencies. -/
def Needs (nodes : List Declaration) (a b : NodeId) : Prop :=
  ∃ d ∈ nodes, d.id = a ∧ b ∈ d.dependencies

theorem leads_iff_needs (hids : (nodes.map Declaration.id).Nodup) :
    Leads (declared nodes) a b ↔ Needs nodes a b := by
  constructor
  · intro h
    obtain ⟨d, hd, rfl⟩ := List.mem_map.1 (mem_ids_of_leads_declared h)
    exact ⟨d, hd, rfl, declared_of_mem hids hd ▸ h⟩
  · rintro ⟨d, hd, rfl, hb⟩
    rw [Leads, declared_of_mem hids hd]
    exact hb

theorem work_map {stop : Declaration → Stop}
    (hstop : ∀ d ∈ nodes, (stop d).left = d.dependencies) :
    work (nodes.map stop) = nodes.length + (nodes.flatMap Declaration.dependencies).length := by
  induction nodes with
  | nil => rfl
  | cons d nodes ih =>
    obtain ⟨hd, hrest⟩ := List.forall_mem_cons.1 hstop
    rw [List.map_cons, work, hd, ih hrest, List.flatMap_cons, List.length_append, List.length_cons]
    omega

/-- The search over some declarations can take two steps for each node and one for each
dependency. -/
theorem left_start (hids : (nodes.map Declaration.id).Nodup) :
    (Moment.start (nodes.map Declaration.id)).left (declared nodes) (nodes.map Declaration.id)
      = 2 * nodes.length + (nodes.flatMap Declaration.dependencies).length := by
  show (nodes.map Declaration.id).length + 0 +
    work ((Moment.fresh (nodes.map Declaration.id) []).map _) = _
  rw [Moment.fresh_nil, List.map_map, work_map fun d hd => declared_of_mem hids hd, List.length_map]
  omega

/-- **The search for a cycle is exact.**  For declarations with different ids that only need
declared nodes, the loop is over after at most two steps for each node, one for each dependency and
a last one, and with what `find?` says.  That is nothing if and only if no node needs itself,
directly or through others; and if it is an edge, then its node needs its dependency, and the
dependency needs the node, through others or because it is the same. -/
theorem search_is_exact (hids : (nodes.map Declaration.id).Nodup)
    (hdeclared : ∀ d ∈ nodes, d.dependencies ⊆ nodes.map Declaration.id) :
    (∃ k ≤ 2 * nodes.length + (nodes.flatMap Declaration.dependencies).length + 1,
        (Moment.start (nodes.map Declaration.id)).run (declared nodes) k = some (find? nodes)) ∧
      (find? nodes = none ↔ ∀ a, ¬ TransGen (Needs nodes) a a) ∧
      ∀ e, find? nodes = some e →
        Needs nodes e.node e.dependency ∧ ReflTransGen (Needs nodes) e.dependency e.node := by
  have hneeds : Leads (declared nodes) = Needs nodes := by
    funext a b
    exact propext (leads_iff_needs hids)
  have hnext : ∀ n, declared nodes n ⊆ nodes.map Declaration.id := fun n b hb => by
    obtain ⟨d, hd, rfl, hmem⟩ := (leads_iff_needs hids).1 hb
    exact hdeclared d hd hmem
  refine ⟨?_, hneeds ▸ find?_eq_none_iff, fun e he => hneeds ▸ closes_of_find? he⟩
  obtain ⟨k, hk, hrun⟩ := Moment.exists_run hids hnext (Moment.sound_start _)
  refine ⟨k, left_start hids ▸ hk, ?_⟩
  rw [hrun, Moment.start, Moment.rest_nil, Moment.fresh_nil]
  rfl

/-- A node that needs some others. -/
def bare (id : String) (dependencies : List String) : Declaration :=
  ⟨⟨id⟩, "expr", .none, none, dependencies.map NodeId.mk, dependencies,
    .expression (.literal .none .null), false⟩

/-- Four nodes, three of which need each other; the search passes a node that it has left. -/
def entangled : List Declaration :=
  [bare "a" ["d", "b"], bare "b" ["d", "c"], bare "c" ["d", "a"], bare "d" []]

/-- The theorem applies to nodes that need each other. -/
theorem search_is_exact_of_entangled :
    find? entangled = some ⟨⟨"c"⟩, ⟨"a"⟩⟩ ∧
      (Moment.start (entangled.map Declaration.id)).run (declared entangled) 9
        = some (find? entangled) ∧
      ReflTransGen (Needs entangled) ⟨"a"⟩ ⟨"c"⟩ ∧ ∃ a, TransGen (Needs entangled) a a := by
  have hrun : (Moment.start (entangled.map Declaration.id)).run (declared entangled) 9
      = some (some ⟨⟨"c"⟩, ⟨"a"⟩⟩) := by decide +kernel
  have hfind : find? entangled = some ⟨⟨"c"⟩, ⟨"a"⟩⟩ := by cbv
  have hids : (entangled.map Declaration.id).Nodup := by decide
  obtain ⟨-, hnone, hedge⟩ := search_is_exact hids (by decide)
  refine ⟨hfind, hrun.trans (congrArg some hfind.symm), (hedge _ hfind).2, ?_⟩
  by_contra hall
  rw [hnone.2 fun a ha => hall ⟨a, ha⟩] at hfind
  cases hfind

end

end Cycle

end ReactiveScript

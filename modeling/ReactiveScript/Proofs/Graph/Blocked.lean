import ReactiveScript.Proofs.Checked
import ReactiveScript.Proofs.Graph.Affected
import ReactiveScript.Proofs.Graph.GlitchFree

/-!
# Nodes that stay blocked

A node that could not run because a dependency had failed says so until it has its next turn.  In a
walk over what some nodes affect, it has a turn whenever a dependency is among them.  But a failed
node with a retry policy runs in every walk, whether or not it is asked for; if it completes, its
dependents are not run for that, and go on to say that it has failed.

* `Graph.Walked` — graphs that are assembled and then walked over.
* `Graph.Overlooked` — a dependency recovered outside the set of a walk, and no walk has covered the
  node since.
* `Graph.blocked_by_failed_or_overlooked` — there is no other way to be blocked by a node that has
  not failed.
-/

set_option autoImplicit false

namespace ReactiveScript

/-- A node says that it could not run because another one had failed. -/
def Node.Blames (n : Node) (d : NodeId) : Prop :=
  n.status = .error ∧ n.lastError = some (.dependencyFailed d)

/-- A body fails, of itself, with the words for a dependency that has failed. -/
def Body.Blames (b : Body) (limit : Option Period) (d : NodeId) : Prop :=
  ∃ v : Visit, (b v).result limit = .error (.dependencyFailed d)

namespace Graph

open Relation

variable {g g' : Graph} {recompute : Option (List NodeId)} {inputs : InputTable} {r : Report}
  {id d : NodeId} {n : Node}

/-! ## Walks -/

/-- A walk that came to its end. -/
structure Walk where
  /-- The nodes that it was to run, if not all. -/
  recompute : Option (List NodeId)
  /-- What it did. -/
  report : Report

/-- A walk was to run a node. -/
def Walk.Covers (w : Walk) (id : NodeId) : Prop := ∀ ids, w.recompute = some ids → id ∈ ids

/-- The graphs that are assembled by registrations, and the walks over them: each over all nodes or
over what some nodes affect. -/
inductive Walked : List Walk → Graph → Prop
  /-- There are no nodes in the beginning. -/
  | empty (retry : Option RetryPolicy) (timeout : Option Period) : Walked [] (empty retry timeout)
  /-- A node is registered or redefined. -/
  | register {g g' : Graph} {id : NodeId} {dependencies : List NodeId} {body : Body} :
      Walked [] g → g.register id dependencies body = .ok g' → Walked [] g'
  /-- A node gets a retry policy. -/
  | setRetry {ws : List Walk} {g g' : Graph} {id : NodeId} {policy : Option RetryPolicy} :
      Walked ws g → g.setRetry id policy = .ok g' → Walked ws g'
  /-- Nodes run, and that comes to its end. -/
  | walk {ws : List Walk} {g g' : Graph} {recompute : Option (List NodeId)} {inputs : InputTable}
      {r : Report} : Walked ws g →
      (recompute = none ∨ ∃ changed, recompute = some (g.affected changed)) →
      g.execute recompute inputs = (some r, g') → Walked (ws ++ [⟨recompute, r⟩]) g'

/-- A dependency completed in a walk that was not to run it, and neither that walk nor any later one
was to run the node. -/
def Overlooked (ws : List Walk) (id d : NodeId) : Prop :=
  ∃ before w after, ws = before ++ w :: after ∧ d ∈ w.report.executed ∧ ¬ w.Covers d ∧
    ∀ w' ∈ w :: after, ¬ w'.Covers id

theorem Overlooked.concat {ws : List Walk} {w : Walk} (h : Overlooked ws id d)
    (hw : ¬ w.Covers id) : Overlooked (ws ++ [w]) id d := by
  obtain ⟨before, v, after, rfl, hexecuted, hd, hid⟩ := h
  refine ⟨before, v, after ++ [w], by simp, hexecuted, hd, fun w' hw' => ?_⟩
  rw [← List.cons_append, List.mem_append, List.mem_singleton] at hw'
  exact hw'.elim (hid w') fun heq => heq ▸ hw

/-! ## One node in a walk -/

/-- The turn of a node in a walk, with what the walk leaves as it is before and after it. -/
structure TurnIn (g : Graph) (recompute : Option (List NodeId)) (inputs : InputTable) (id : NodeId)
    (r : Report) (g' : Graph) (g₁ : Graph) (r₁ : Report) (calls : List Call) (r₂ : Report)
    (g₂ : Graph) : Prop where
  /-- The turn. -/
  turn : Turn g₁ recompute inputs id r₁ calls (some r₂) g₂
  /-- The node is as the walk has found it. -/
  before : (g₁.node? id).map Node.core = (g.node? id).map Node.core
  /-- The node stays as it is then. -/
  after : (g'.node? id).map Node.core = (g₂.node? id).map Node.core
  /-- Its dependencies have had their turn. -/
  hasFailed_eq : ∀ d, g.DependsOn id d → g'.hasFailed d = g₁.hasFailed d
  /-- What was done up to then is in the report. -/
  executed_subset : r₂.executed ⊆ r.executed
  /-- Settings stay. -/
  nodeTimeout_eq : g₁.nodeTimeout = g.nodeTimeout

/-- The turn of a node, wherever the order puts it. -/
theorem turnIn_of_order {pre post : List NodeId} {r₁ r₂ : Report} {g₁ g₂ : Graph}
    (hg : g.WellFormed) (horder : g.order = pre ++ id :: post)
    (hpre : visitAll recompute inputs pre g .empty = (some r₁, g₁))
    (hvisit : g₁.visit recompute inputs id r₁ = (some r₂, g₂))
    (hafter : visitAll recompute inputs post g₂ r₂ = (some r, g')) :
    TurnIn g recompute inputs id r g' g₁ r₁ (g₁.visitCalls recompute inputs id) r₂ g₂ := by
  have hlists := hg.lists_order
  rw [horder] at hlists
  have hready := hlists.split pre
  rw [List.nil_append] at hready
  have hpost : id ∉ post := (List.nodup_cons.1 (List.nodup_append.1 hlists.nodup).2.1).1
  have hturn := visit_turn g₁ recompute inputs id r₁
  have hkeeps := hturn.keeps
  rw [hvisit] at hturn hkeeps
  have hbefore := (visitAll_keeps recompute inputs hready.not_mem g .empty).1
  have hlater := later_visitAll recompute inputs pre g .empty
  rw [hpre] at hbefore hlater
  have hkept : ∀ j, j ∉ post → (g'.node? j).map Node.core = (g₂.node? j).map Node.core := by
    intro j hj
    have hrest := (visitAll_keeps recompute inputs hj g₂ r₂).1
    rwa [hafter] at hrest
  refine ⟨hturn, hbefore, hkept id hpost, fun d hd => ?_, ?_, hlater.nodeTimeout_eq⟩
  · have hd : d ∈ pre := hready.dependencies_subset hd
    have hne : d ≠ id := fun heq => hready.not_mem (heq ▸ hd)
    have hnotPost : d ∉ post := fun hmem =>
      (List.nodup_append.1 hlists.nodup).2.2 d hd d (List.mem_cons_of_mem _ hmem) rfl
    exact hasFailed_congr ((hkept d hnotPost).trans (hkeeps.core_eq d hne))
  · rw [(visitAll_outputs_eq hafter).2]
    exact List.subset_append_left _ _

/-- Every node has its turn in a walk. -/
theorem exists_turnIn (hg : g.WellFormed) (hexecute : g.execute recompute inputs = (some r, g'))
    (hid : id ∈ g.ids) :
    ∃ g₁ r₁ calls r₂ g₂, TurnIn g recompute inputs id r g' g₁ r₁ calls r₂ g₂ := by
  obtain ⟨pre, post, horder⟩ := List.append_of_mem (hg.mem_order_iff.2 hid)
  rw [execute, horder] at hexecute
  obtain ⟨r₁, g₁, hpre, hrest⟩ := visitAll_append hexecute
  obtain ⟨r₂, g₂, hvisit, hafter⟩ := visitAll_cons hrest
  exact ⟨g₁, r₁, _, r₂, g₂, turnIn_of_order hg horder hpre hvisit hafter⟩

/-- **A node that has failed and then has not was run in between.** -/
theorem mem_executed_of_recovered (hg : g.WellFormed)
    (hexecute : g.execute recompute inputs = (some r, g')) (hbefore : g.hasFailed d = true)
    (hafter : g'.hasFailed d = false) : d ∈ r.executed := by
  obtain ⟨n, hn⟩ : ∃ n, g.node? d = some n := by
    cases hn : g.node? d with
    | none => simp [hasFailed, hn] at hbefore
    | some n => exact ⟨n, rfl⟩
  obtain ⟨g₁, r₁, calls, r₂, g₂, h⟩ := exists_turnIn hg hexecute (mem_ids_iff.2 ⟨n, hn⟩)
  have hfailed₁ : g₁.hasFailed d = true := (hasFailed_congr h.before).trans hbefore
  have hfailed₂ : g₂.hasFailed d = false := (hasFailed_congr h.after).symm.trans hafter
  cases h.turn with
  | skipped => cases hfailed₁.symm.trans hfailed₂
  | @blocked m _ hm =>
    refine absurd hfailed₂ (Bool.not_eq_false _ ▸ ?_)
    rw [hasFailed, node?_update, if_pos rfl, hm]
    rfl
  | @ran m _ _ _ hm _ _ _ _ hattempted =>
    cases hattempted with
    | completed => exact h.executed_subset (by simp [Report.complete])
    | failed _ hend =>
      refine absurd hfailed₂ (Bool.not_eq_false _ ▸ ?_)
      rw [hasFailed, node?_update, if_pos rfl, hm]
      exact decide_eq_true (hend m).1

theorem exists_of_selects_eq_false (h : g.selects recompute id n = false) :
    ∃ ids, recompute = some ids ∧ id ∉ ids := by
  cases recompute with
  | none => cases h
  | some ids =>
    refine ⟨ids, rfl, fun hid => ?_⟩
    simp [selects, hid] at h

/-- **Why a node says after a walk that it is blocked**: the walk did not run it and it said so
before, or its dependency has failed, or its body says so of itself. -/
theorem blames_of_execute (hg : g.WellFormed)
    (hexecute : g.execute recompute inputs = (some r, g')) (hn : g'.node? id = some n)
    (hblames : n.Blames d) :
    (∃ m ids, g.node? id = some m ∧ m.Blames d ∧ recompute = some ids ∧ id ∉ ids) ∨
      (g.DependsOn id d ∧ g'.hasFailed d = true) ∨ n.body.Blames g'.nodeTimeout d := by
  have hlater := later_execute hexecute
  have hid : id ∈ g.ids := hlater.ids_eq ▸ mem_ids_iff.2 ⟨n, hn⟩
  obtain ⟨m₀, hm₀⟩ := mem_ids_iff.1 hid
  obtain ⟨g₁, r₁, calls, r₂, g₂, h⟩ := exists_turnIn hg hexecute hid
  have hbefore := h.before
  rw [hm₀] at hbefore
  obtain ⟨m₁, hm₁, hcore₁⟩ := Option.map_eq_some_iff.1 hbefore
  have hafter := h.after
  rw [hn] at hafter
  obtain ⟨m₂, hm₂, hcore₂⟩ := Option.map_eq_some_iff.1 hafter.symm
  have hblames₂ : m₂.Blames d := ⟨(congrArg Node.status hcore₂ :).trans hblames.1,
    (congrArg Node.lastError hcore₂ :).trans hblames.2⟩
  have hbody₂ : m₂.body = n.body := (congrArg Node.body hcore₂ :)
  cases h.turn with
  | skipped hnot =>
    obtain rfl := Option.some.inj (hm₁.symm.trans hm₂)
    obtain ⟨ids, hrecompute, hnotMem⟩ := exists_of_selects_eq_false (hnot m₁ hm₁)
    have hblames₀ : m₀.Blames d := ⟨(congrArg Node.status hcore₁ :).symm.trans hblames₂.1,
      (congrArg Node.lastError hcore₁ :).symm.trans hblames₂.2⟩
    exact Or.inl ⟨m₀, ids, hm₀, hblames₀, hrecompute, hnotMem⟩
  | @blocked m d' hm _ hfind =>
    obtain rfl := Option.some.inj (hm₁.symm.trans hm)
    rw [node?_update, if_pos rfl, hm] at hm₂
    obtain rfl := Option.some.inj hm₂
    obtain rfl : d' = d := NodeError.dependencyFailed.inj (Option.some.inj hblames₂.2)
    have hdependsOn : g.DependsOn id d' := by
      rw [DependsOn, ← dependenciesOf_congr h.before, dependenciesOf_eq hm]
      exact List.mem_of_find?_eq_some hfind
    exact Or.inr (Or.inl ⟨hdependsOn, (h.hasFailed_eq d' hdependsOn).trans
      (List.find?_some hfind)⟩)
  | @ran m _ _ _ hm _ _ _ _ hattempted =>
    cases hattempted with
    | @completed f _ visit v _ _ _ _ _ _ =>
      obtain ⟨ds, hds, -⟩ := node?_complete (g := g₁.update id f) (n := f m)
        (by rw [node?_update, if_pos rfl, hm]; rfl) v (m.body visit).footprint
      obtain rfl := Option.some.inj (hds.symm.trans hm₂)
      cases hblames₂.1
    | @failed f _ visit e _ hf hend _ _ hresult _ =>
      rw [node?_update, if_pos rfl, hm] at hm₂
      obtain rfl := Option.some.inj hm₂
      obtain rfl : e = .dependencyFailed d :=
        Option.some.inj ((hend m).2.symm.trans hblames₂.2)
      rw [h.nodeTimeout_eq, ← hlater.nodeTimeout_eq] at hresult
      rw [← hbody₂, hf.body_eq]
      exact Or.inr (Or.inr ⟨visit, hresult⟩)

/-! ## Sequences of walks -/

/-- A node that is registered, or named as a dependency, has not run or is what it was. -/
theorem status_of_register {dependencies : List NodeId} {body : Body}
    (hreg : g.register id dependencies body = .ok g') {j : NodeId} (hn : g'.node? j = some n) :
    n.status = .pending ∨ ∃ m, g.node? j = some m ∧ n.status = m.status := by
  have hcore := core_register hreg j
  rw [hn] at hcore
  split at hcore
  · rename_i hj
    subst hj
    have hstatus := congrArg Node.status (Option.some.inj hcore)
    cases hj : g.node? j with
    | none =>
      rw [hj] at hstatus
      exact Or.inl hstatus
    | some m =>
      rw [hj] at hstatus
      exact Or.inr ⟨m, rfl, hstatus⟩
  · split at hcore
    · obtain ⟨m, hm, hcore⟩ := Option.map_eq_some_iff.1 hcore.symm
      exact Or.inr ⟨m, hm, (congrArg Node.status hcore.symm :)⟩
    · split at hcore
      · exact Or.inl (congrArg Node.status (Option.some.inj hcore) :)
      · cases hcore

/-- A retry policy makes no difference to what has become of nodes, and to what they do. -/
theorem keeps_setRetry {j : NodeId} {policy : Option RetryPolicy}
    (hset : g.setRetry j policy = .ok g') :
    (∀ id n, g'.node? id = some n → ∃ m, g.node? id = some m ∧ n.status = m.status ∧
      n.lastError = m.lastError ∧ n.body = m.body) ∧
    (∀ a b, g'.DependsOn a b ↔ g.DependsOn a b) ∧ (∀ k, g'.hasFailed k = g.hasFailed k) ∧
    g'.nodeTimeout = g.nodeTimeout := by
  rw [setRetry] at hset
  split at hset
  · cases hset
    refine ⟨fun id n hn => ?_, fun a b => ?_, fun k => ?_, rfl⟩
    · rw [node?_update] at hn
      split at hn
      · obtain ⟨m, hm, rfl⟩ := Option.map_eq_some_iff.1 hn
        exact ⟨m, hm, rfl, rfl, rfl⟩
      · exact ⟨n, hn, rfl, rfl, rfl⟩
    · refine iff_of_eq (congrArg (b ∈ ·) (dependenciesOf_update g j a ?_))
      exact fun _ => rfl
    · rw [hasFailed, hasFailed, node?_update]
      split
      · cases g.node? k <;> rfl
      · rfl
  · cases hset

/-- Why a node says that it is blocked by another one. -/
def Accounted (ws : List Walk) (g : Graph) (id : NodeId) (n : Node) (d : NodeId) : Prop :=
  (g.DependsOn id d ∧ (g.hasFailed d = true ∨ Overlooked ws id d)) ∨ n.body.Blames g.nodeTimeout d

namespace Walked

variable {ws : List Walk}

theorem wellFormed (h : Walked ws g) : g.WellFormed := by
  induction h with
  | empty retry timeout => exact wellFormed_empty retry timeout
  | register _ hreg ih => exact ih.register hreg
  | setRetry _ hset ih => exact ih.setRetry hset
  | @walk ws g g' recompute inputs r _ _ hexecute ih =>
    have hwell := wellFormed_visitAll recompute inputs g.order ih .empty
    rw [execute] at hexecute
    rwa [hexecute] at hwell

/-- Before the first walk no node has failed. -/
theorem status_ne_error (h : Walked [] g) (hn : g.node? id = some n) : n.status ≠ .error := by
  generalize hws : ([] : List Walk) = ws at h
  induction h generalizing id n with
  | empty => cases hn
  | register _ hreg ih =>
    rcases status_of_register hreg hn with hpending | ⟨m, hm, hstatus⟩
    · rw [hpending]
      exact nofun
    · rw [hstatus]
      exact ih hm hws
  | @setRetry _ g g' j policy _ hset ih =>
    obtain ⟨hnodes, -⟩ := keeps_setRetry hset
    obtain ⟨m, hm, hstatus, -⟩ := hnodes id n hn
    rw [hstatus]
    exact ih hm hws
  | walk => simp at hws

/-- A node is blocked for a reason, whatever walks have been made. -/
theorem accounted (h : Walked ws g) (hn : g.node? id = some n) (hblames : n.Blames d) :
    Accounted ws g id n d := by
  induction h generalizing n with
  | empty => cases hn
  | register hwalked hreg =>
    exact absurd hblames.1 ((hwalked.register hreg).status_ne_error hn)
  | @setRetry ws g g' j policy _ hset ih =>
    obtain ⟨hnodes, hdependsOn, hfailed, htimeout⟩ := keeps_setRetry hset
    obtain ⟨m, hm, hstatus, herror, hbody⟩ := hnodes id n hn
    rw [Accounted, hdependsOn, hfailed, htimeout, hbody]
    exact ih hm ⟨hstatus.symm.trans hblames.1, herror.symm.trans hblames.2⟩
  | @walk ws g g' recompute inputs r hwalked hset hexecute ih =>
    rcases blames_of_execute hwalked.wellFormed hexecute hn hblames with
      ⟨m, ids, hm, hblamed, rfl, hid⟩ | ⟨hdependsOn, hfailed⟩ | hbody
    · have hlater := later_execute hexecute
      have hnotCovers : ¬ Walk.Covers ⟨some ids, r⟩ id := fun hcovers => hid (hcovers ids rfl)
      rcases ih hm hblamed with ⟨hdependsOn, hfailed | hoverlooked⟩ | hbody
      · refine Or.inl ⟨hlater.dependsOn id d hdependsOn, ?_⟩
        cases hnow : g'.hasFailed d with
        | true => exact Or.inl rfl
        | false =>
          -- A set that is closed under dependents cannot have the dependency without the node.
          have hd : d ∉ ids := by
            obtain hnone | ⟨changed, hsome⟩ := hset
            · cases hnone
            · obtain rfl := Option.some.inj hsome
              exact fun hd => hid (hwalked.wellFormed.affected_closed hd hdependsOn)
          refine Or.inr ⟨ws, _, [], rfl,
            mem_executed_of_recovered hwalked.wellFormed hexecute hfailed hnow,
            fun hcovers => hd (hcovers ids rfl), fun w hw => ?_⟩
          rw [List.mem_singleton.1 hw]
          exact hnotCovers
      · exact Or.inl ⟨hlater.dependsOn id d hdependsOn, Or.inr (hoverlooked.concat hnotCovers)⟩
      · obtain ⟨m', hm', hbodyEq, -⟩ := hlater.node? id m hm
        obtain rfl := Option.some.inj (hm'.symm.trans hn)
        rw [← hbodyEq, ← hlater.nodeTimeout_eq] at hbody
        exact Or.inr hbody
    · exact Or.inl ⟨(later_execute hexecute).dependsOn id d hdependsOn, Or.inl hfailed⟩
    · exact Or.inr hbody

end Walked

/-- **A node is blocked by a dependency that has failed, or it was overlooked.**  However a graph is
assembled by registrations, and whatever walks over all nodes or over what some nodes affect have
come to their end: a node that says that it could not run because another one had failed depends on
that one, which has failed, unless it completed in a walk that was not to run it and neither that walk
nor any later one was to run the node that it had blocked.  Only a body that fails with these very
words is another matter. -/
theorem blocked_by_failed_or_overlooked {ws : List Walk} (h : Walked ws g)
    (hn : g.node? id = some n) (hstatus : n.status = .error)
    (herror : n.lastError = some (.dependencyFailed d)) :
    (g.DependsOn id d ∧ (g.hasFailed d = true ∨ Overlooked ws id d)) ∨
      ∃ v : Visit, (n.body v).result g.nodeTimeout = .error (.dependencyFailed d) :=
  h.accounted hn ⟨hstatus, herror⟩

/-! ## A node that recovers -/

/-- A body that fails when it is called for the first time. -/
def flaky : Body := fun v =>
  if v.call ≤ 1 then Body.failing "not yet" v else Body.constant (.bool true) v

/-- A node that fails at first and has a retry policy, and a node that depends on it. -/
def flakyGraph : Except GraphError Graph := do
  let g ← (empty none none).register ⟨"a"⟩ [] flaky
  let g ← g.setRetry ⟨"a"⟩ (some ⟨1, .ofMillis 0, 1⟩)
  g.register ⟨"b"⟩ [⟨"a"⟩] (.constant (.bool true))

/-- The second node says that the first has failed, which is not so. -/
def SaysSo (g : Graph) : Prop :=
  ∃ n, g.node? ⟨"b"⟩ = some n ∧ n.status = .error ∧
    n.lastError = some (.dependencyFailed ⟨"a"⟩) ∧ g.hasFailed ⟨"a"⟩ = false

theorem affected_nil (g : Graph) : g.affected [] = [] := reach.eq_1 g []

/-- After a walk over all nodes, and one over the nodes that nothing affects, the first node has
recovered, and the second has not been run again. -/
theorem exists_walked_flakyGraph : ∃ ws g, Walked ws g ∧ SaysSo g ∧
    ∀ n, g.node? ⟨"b"⟩ = some n → n.body = .constant (.bool true) := by
  have hruns : (flakyGraph.toOption.any fun g => (g.execute none []).1.isSome &&
      ((g.execute none []).2.execute (some []) []).1.isSome &&
      ((((g.execute none []).2.execute (some []) []).2.node? ⟨"b"⟩).any fun n =>
        n.status == .error && n.lastError == some (.dependencyFailed ⟨"a"⟩)) &&
      !((g.execute none []).2.execute (some []) []).2.hasFailed ⟨"a"⟩) = true := by decide +kernel
  obtain ⟨g, hbuilt⟩ : ∃ g, flakyGraph = .ok g := by
    cases hbuilt : flakyGraph with
    | error e =>
      rw [hbuilt] at hruns
      cases hruns
    | ok g => exact ⟨g, rfl⟩
  rw [hbuilt] at hruns
  simp only [Except.toOption, Option.any_some, Bool.and_eq_true, Bool.not_eq_true'] at hruns
  obtain ⟨⟨⟨hfirst, hsecond⟩, hsays⟩, hrecovered⟩ := hruns
  obtain ⟨g₀, hregister, hrest⟩ := exists_of_bind hbuilt
  obtain ⟨g₁, hretry, hlast⟩ := exists_of_bind hrest
  obtain ⟨r₁, hr₁⟩ := Option.isSome_iff_exists.1 hfirst
  obtain ⟨r₂, hr₂⟩ := Option.isSome_iff_exists.1 hsecond
  have hexecute₁ : g.execute none [] = (some r₁, (g.execute none []).2) := Prod.ext hr₁ rfl
  have hexecute₂ : (g.execute none []).2.execute (some []) []
      = (some r₂, ((g.execute none []).2.execute (some []) []).2) := Prod.ext hr₂ rfl
  have hwalked := ((((Walked.empty none none).register hregister).setRetry hretry).register
    hlast).walk (.inl rfl) hexecute₁
  refine ⟨_, _, hwalked.walk (.inr ⟨[], by rw [affected_nil]⟩) hexecute₂, ?_, fun n hn => ?_⟩
  · obtain ⟨n, hn, hsays⟩ := (Option.any_eq_true _ _).1 hsays
    simp only [Bool.and_eq_true, beq_iff_eq] at hsays
    exact ⟨n, hn, hsays.1, hsays.2, hrecovered⟩
  · have hlater := (later_execute hexecute₁).trans (later_execute hexecute₂)
    have hcore := core_register hlast ⟨"b"⟩
    rw [if_pos rfl] at hcore
    obtain ⟨m, hm, hcore⟩ := Option.map_eq_some_iff.1 hcore
    obtain ⟨n', hn', hbody, -⟩ := hlater.node? _ m hm
    obtain rfl := Option.some.inj (hn'.symm.trans hn)
    rw [hbody]
    refine (congrArg Node.body hcore :).trans ?_
    cases g₁.node? ⟨"b"⟩ <;> rfl

/-- The theorem applies to a node whose dependency has recovered: it was overlooked, and goes on to
say that the dependency has failed. -/
theorem blocked_by_recovered_node : ∃ ws g n, Walked ws g ∧ g.node? ⟨"b"⟩ = some n ∧
    n.status = .error ∧ n.lastError = some (.dependencyFailed ⟨"a"⟩) ∧
    g.hasFailed ⟨"a"⟩ = false ∧ Overlooked ws ⟨"b"⟩ ⟨"a"⟩ := by
  obtain ⟨ws, g, hwalked, ⟨n, hn, hstatus, herror, hrecovered⟩, hbody⟩ := exists_walked_flakyGraph
  refine ⟨ws, g, n, hwalked, hn, hstatus, herror, hrecovered, ?_⟩
  rcases blocked_by_failed_or_overlooked hwalked hn hstatus herror with
    ⟨-, hfailed | hoverlooked⟩ | ⟨v, hv⟩
  · cases hrecovered.symm.trans hfailed
  · exact hoverlooked
  · rw [hbody n hn, Body.constant, Outcome.result] at hv
    dsimp only at hv
    split at hv <;> cases hv

end Graph

end ReactiveScript

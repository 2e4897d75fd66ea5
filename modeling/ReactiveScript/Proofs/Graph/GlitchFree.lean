import Mathlib
import ReactiveScript.Proofs.Graph.Walk

/-!
# What a completed run has seen

Arguments and declared reads are never out of date: when a walk returns, the store holds for every
dependency what the completed runs of its dependents were given, and that dependency has not failed.

Reads that are not declared only become edges when the body has completed, which is too late for the
run that makes them: `undeclared_read_is_stale` is a run that reads a node before its turn, and one
that reads what a failed node has left.

* `completed_call_sees_final_values` — the theorem.
* `outputs_eq_completed_calls` — the completed calls are those that a report lists.
-/

set_option autoImplicit false

namespace ReactiveScript

/-- Whether a call gave its node a value. -/
def Call.completes (c : Call) : Bool :=
  match c.result with
  | .ok _ => true
  | .error _ => false

theorem Call.completes_iff {c : Call} : c.completes = true ↔ ∃ v, c.result = .ok v := by
  rw [completes]
  cases c.result <;> simp

namespace Graph

variable {g g' : Graph} {recompute : Option (List NodeId)} {inputs : InputTable}

/-! ## The calls that a report lists -/

/-- The node of a call and the units that it emitted. -/
def callOutput (c : Call) : NodeId × List OutputUnit :=
  (c.visit.node, c.outcome.footprint.log.emitted.toList)

theorem completed_calls_of_failures {calls : List Call}
    (h : ∀ c ∈ calls, ∀ w, c.result ≠ .ok w) : calls.filter Call.completes = [] := by
  rw [List.filter_eq_nil_iff]
  intro c hc hcompletes
  obtain ⟨w, hw⟩ := Call.completes_iff.1 hcompletes
  exact h c hc w hw

theorem Turn.outputs_eq {id : NodeId} {r r' : Report} {calls : List Call}
    (h : Turn g recompute inputs id r calls (some r') g') :
    r'.outputs = r.outputs ++ (calls.filter Call.completes).map callOutput ∧
      r'.executed = r.executed ++ (calls.filter Call.completes).map (·.visit.node) := by
  cases h with
  | skipped _ => simp
  | blocked _ _ _ => simp [Report.block]
  | ran _ _ _ _ _ hattempted =>
    cases hattempted with
    | @completed f failures visit v r'' hf hfailures hvisit hresult hr =>
      obtain ⟨call, hvisit⟩ := hvisit
      have hlimit : visit.limit = g.nodeTimeout := by rw [hvisit]; rfl
      have hnode : visit.node = id := by rw [hvisit]; rfl
      have hlast : Call.completes ⟨visit, Node.body _ visit⟩ = true :=
        Call.completes_iff.2 ⟨v, by rw [Call.result, hlimit]; exact hresult⟩
      rw [List.filter_append, completed_calls_of_failures hfailures, List.nil_append,
        List.filter_cons_of_pos hlast, List.filter_nil]
      simp [Report.complete, callOutput, hnode, Report.outputs_of_quiet hr,
        Report.executed_of_quiet hr]
    | failed _ _ hfailures _ _ hr =>
      rw [completed_calls_of_failures hfailures]
      simp [Report.fail, Report.outputs_of_quiet hr, Report.executed_of_quiet hr]

theorem visitAll_outputs_eq {ids : List NodeId} {r r' : Report}
    (h : visitAll recompute inputs ids g r = (some r', g')) :
    r'.outputs = r.outputs ++
        ((visitAllCalls recompute inputs ids g r).filter Call.completes).map callOutput ∧
      r'.executed = r.executed ++
        ((visitAllCalls recompute inputs ids g r).filter Call.completes).map (·.visit.node) := by
  induction ids generalizing g r with
  | nil =>
    cases h
    simp [visitAllCalls]
  | cons id ids ih =>
    obtain ⟨r₁, g₁, hvisit, hrest⟩ := visitAll_cons h
    have hturn := visit_turn g recompute inputs id r
    rw [hvisit] at hturn
    obtain ⟨houtputs, hexecuted⟩ := hturn.outputs_eq
    obtain ⟨houtputs', hexecuted'⟩ := ih hrest
    rw [visitAllCalls, hvisit, List.filter_append, List.map_append, List.map_append,
      ← List.append_assoc, ← List.append_assoc, ← houtputs, ← hexecuted]
    exact ⟨houtputs', hexecuted'⟩

/-- **A report lists the completed calls**, with their nodes and what they emitted, in order. -/
theorem outputs_eq_completed_calls {report : Report}
    (h : g.execute recompute inputs = (some report, g')) :
    report.outputs = ((g.executeCalls recompute inputs).filter Call.completes).map callOutput ∧
      report.executed =
        ((g.executeCalls recompute inputs).filter Call.completes).map (·.visit.node) :=
  visitAll_outputs_eq h

/-! ## Values that are not out of date -/

/-- A node has its turn when, or after, another one has. -/
def NotBefore (g : Graph) (id s : NodeId) : Prop :=
  ∃ before after, g.order = before ++ id :: after ∧ s ∈ id :: after

/-- **No node computes from a value that is out of date.**  Whenever a body completes in a walk that
returns, every argument and every value it read from one of its dependencies is what the store holds
in the end, and these nodes have not failed.  What it read from any other node is what the store
holds in the end if that node had its turn before. -/
theorem completed_call_sees_final_values (hg : Reachable g) {report : Report}
    (hexecute : g.execute recompute inputs = (some report, g')) {c : Call}
    (hc : c ∈ g.executeCalls recompute inputs) (hcompletes : c.completes = true) :
    (c.visit.args = g'.arguments (g.paramsOf c.visit.node) ∧
        ∀ s ∈ g.paramsOf c.visit.node, g'.hasFailed s = false) ∧
      (∀ s, g.DependsOn c.visit.node s →
        (∀ f : Footprint, (f.read c.visit s).1 = g'.value? s) ∧ g'.hasFailed s = false) ∧
      ∀ s, ¬ g.NotBefore c.visit.node s → ∀ f : Footprint, (f.read c.visit s).1 = g'.value? s := by
  have hwell := hg.wellFormed
  have hlists := hwell.lists_order
  obtain ⟨before, id, after, r₁, g₁, r₂, g₂, horder, hbefore, hvisit, hafter, hc⟩ :=
    exists_turn_of_mem_visitAllCalls hexecute hc
  obtain ⟨v, hv⟩ := Call.completes_iff.1 hcompletes
  obtain ⟨n, call, hn, hdependencies, hcall, -⟩ :=
    (visit_turn g₁ recompute inputs id r₁).completed_call hc hv
  have hnode : c.visit.node = id := by rw [hcall]; rfl
  rw [hnode]
  -- Nodes whose turn is over stay as the node finds them.
  have hlate : ∀ s, s ∉ id :: after → (f : Footprint) → (f.read c.visit s).1 = g'.value? s := by
    intro s hs f
    obtain ⟨hne, hs⟩ := not_or.1 (mt List.mem_cons.2 hs)
    have hturn := (g₁.keeps_visit recompute inputs id r₁).value?_eq s hne
    have hrest := (visitAll_keeps recompute inputs hs g₂ r₂).2
    rw [hvisit] at hturn
    rw [hafter] at hrest
    rw [hrest, hturn, Footprint.read, hcall]
    rfl
  have hstatus : ∀ s, s ∉ id :: after → g'.hasFailed s = g₁.hasFailed s := by
    intro s hs
    obtain ⟨hne, hs⟩ := not_or.1 (mt List.mem_cons.2 hs)
    have hturn := (g₁.keeps_visit recompute inputs id r₁).core_eq s hne
    have hrest := (visitAll_keeps recompute inputs hs g₂ r₂).1
    rw [hvisit] at hturn
    rw [hafter] at hrest
    exact hasFailed_congr (hrest.trans hturn)
  -- The node itself is as the walk has found it, and its dependencies have had their turn.
  rw [horder] at hlists
  have hready := hlists.split before
  rw [List.nil_append] at hready
  have hself := (visitAll_keeps recompute inputs hready.not_mem g .empty).1
  rw [hbefore] at hself
  have hdone : ∀ s, g.DependsOn id s → s ∉ id :: after := by
    intro s hs hmem
    exact (List.nodup_append.1 hlists.nodup).2.2 s (hready.dependencies_subset hs) s hmem rfl
  have hfailed : ∀ s, g.DependsOn id s → g'.hasFailed s = false := by
    intro s hs
    rw [hstatus s (hdone s hs)]
    refine hdependencies s ?_
    rwa [← dependenciesOf_eq hn, dependenciesOf_congr hself]
  have hparams : ∀ s ∈ g.paramsOf id, g.DependsOn id s := hwell.params_subset id
  refine ⟨⟨?_, fun s hs => hfailed s (hparams s hs)⟩,
    fun s hs => ⟨hlate s (hdone s hs), hfailed s hs⟩, fun s hs => hlate s fun hmem => hs ?_⟩
  · have hargs : c.visit.args = g₁.arguments (g.paramsOf id) := by
      rw [hcall, ← paramsOf_congr hself, paramsOf_eq hn]
      rfl
    rw [hargs, arguments, arguments]
    refine List.map_congr_left fun s hs => ?_
    have hvalue := hlate s (hdone s (hparams s hs)) c.outcome.footprint
    rw [Footprint.read, hcall] at hvalue
    exact congrArg (Option.getD · Value.null) hvalue
  · exact ⟨before, after, horder, hmem⟩

end Graph

/-! ## Runs on two nodes -/

namespace Body

/-- A body that has always the same value. -/
def constant (v : Value) : Body := fun visit => ⟨.value v, .start visit⟩

/-- A body that fails. -/
def failing (message : String) : Body := fun visit => ⟨.error (.custom message), .start visit⟩

/-- A body that has the value it reads from a node. -/
def reading (id : NodeId) : Body := fun visit =>
  let (v, f) := (Footprint.start visit).read visit id
  ⟨.value (v.getD .null), f⟩

end Body

namespace Graph

/-- Two nodes, of which the second is given the value of the first. -/
def declaredRead : Except GraphError Graph :=
  (empty none none).registerAll
    [(⟨"a"⟩, [], .constant (.bool true)), (⟨"b"⟩, [⟨"a"⟩], .reading ⟨"a"⟩)]

/-- Two nodes, of which the first reads the second without depending on it. -/
def readAhead : Except GraphError Graph :=
  (empty none none).registerAll
    [(⟨"a"⟩, [], .reading ⟨"b"⟩), (⟨"b"⟩, [], .constant (.bool true))]

/-- Two nodes, of which the second reads the first without depending on it; the first has run and is
going to fail. -/
def readOfFailing : Except GraphError Graph := do
  let g ← (empty none none).registerAll [(⟨"a"⟩, [], .constant (.bool true))]
  (g.execute none []).2.registerAll
    [(⟨"a"⟩, [], .failing "no value"), (⟨"b"⟩, [], .reading ⟨"a"⟩)]

/-- A test on a graph that is built can be run. -/
theorem exists_built_of_any (built : Except GraphError Graph) (test : Graph → Bool)
    (h : built.toOption.any test = true) : ∃ g, built = .ok g ∧ test g = true := by
  cases built with
  | error e => simp [Except.toOption] at h
  | ok g => exact ⟨g, rfl, h⟩

/-- A test on a walk over all nodes — the graph before and after it, and one of its calls — can be
run. -/
theorem exists_call_of_any (built : Except GraphError Graph) (test : Graph → Graph → Call → Bool)
    (h : (built.toOption.any fun g => (g.execute none []).1.isSome &&
      (g.executeCalls none []).any (test g (g.execute none []).2)) = true) :
    ∃ g report g' c, built = .ok g ∧ g.execute none [] = (some report, g') ∧
      c ∈ g.executeCalls none [] ∧ test g g' c = true := by
  obtain ⟨g, hbuilt, hruns⟩ := exists_built_of_any built _ h
  simp only [Bool.and_eq_true, List.any_eq_true] at hruns
  obtain ⟨hreturns, c, hc, htest⟩ := hruns
  obtain ⟨report, hreport⟩ := Option.isSome_iff_exists.1 hreturns
  exact ⟨g, report, _, c, hbuilt, Prod.ext hreport rfl, hc, htest⟩

/-- The theorem applies to the second of two nodes. -/
theorem completed_call_sees_final_values_of_two :
    ∃ (g g' : Graph) (report : Report) (c : Call), Reachable g ∧
      g.execute none [] = (some report, g') ∧ c ∈ g.executeCalls none [] ∧ c.completes = true ∧
      g.DependsOn c.visit.node ⟨"a"⟩ ∧ c.visit.args = g'.arguments (g.paramsOf c.visit.node) ∧
      g'.hasFailed ⟨"a"⟩ = false := by
  obtain ⟨g, report, g', c, hbuilt, hexecute, hc, htest⟩ :=
    exists_call_of_any declaredRead
      (fun g _ c => c.completes && decide (⟨"a"⟩ ∈ g.dependenciesOf c.visit.node)) (by cbv)
  simp only [Bool.and_eq_true, decide_eq_true_eq] at htest
  obtain ⟨hcompletes, hdependsOn⟩ := htest
  have hg : Reachable g := Reachable.registerAll (.empty none none) hbuilt
  have hfinal := completed_call_sees_final_values hg hexecute hc hcompletes
  exact ⟨g, g', report, c, hg, hexecute, hc, hcompletes, hdependsOn, hfinal.1.1,
    (hfinal.2.1 _ hdependsOn).2⟩

/-- **Reads that are not declared may be out of date**: a completed run may have read a value that is
not the final one, and it may have read what a failed node has left. -/
theorem undeclared_read_is_stale :
    (¬ ∀ (g g' : Graph) (report : Report) (c : Call), Reachable g →
      g.execute none [] = (some report, g') → c ∈ g.executeCalls none [] → c.completes = true →
      ∀ s ∈ c.outcome.footprint.reads, ∀ f : Footprint, (f.read c.visit s).1 = g'.value? s) ∧
    ¬ ∀ (g g' : Graph) (report : Report) (c : Call), Reachable g →
      g.execute none [] = (some report, g') → c ∈ g.executeCalls none [] → c.completes = true →
      ∀ s ∈ c.outcome.footprint.reads, g'.hasFailed s = false := by
  constructor
  · intro hreadsFinal
    obtain ⟨g, report, g', c, hbuilt, hexecute, hc, htest⟩ :=
      exists_call_of_any readAhead
        (fun _ g' c => c.completes && decide (⟨"b"⟩ ∈ c.outcome.footprint.reads) &&
          (Table.get? ⟨"b"⟩ c.visit.values).isNone && (g'.value? ⟨"b"⟩).isSome) (by cbv)
    simp only [Bool.and_eq_true, decide_eq_true_eq] at htest
    obtain ⟨⟨⟨hcompletes, hreads⟩, hread⟩, hvalue⟩ := htest
    have hg : Reachable g := Reachable.registerAll (.empty none none) hbuilt
    have hsame := hreadsFinal g g' report c hg hexecute hc hcompletes _ hreads c.outcome.footprint
    rw [← hsame, Footprint.read, Option.isSome_iff_ne_none] at hvalue
    exact hvalue (Option.isNone_iff_eq_none.1 hread)
  · intro hreadsValid
    obtain ⟨g, report, g', c, hbuilt, hexecute, hc, htest⟩ :=
      exists_call_of_any readOfFailing
        (fun _ g' c => c.completes && decide (⟨"a"⟩ ∈ c.outcome.footprint.reads) &&
          g'.hasFailed ⟨"a"⟩) (by cbv)
    simp only [Bool.and_eq_true, decide_eq_true_eq] at htest
    obtain ⟨⟨hcompletes, hreads⟩, hfailed⟩ := htest
    have hg : Reachable g := by
      rw [readOfFailing] at hbuilt
      cases hfirst : (empty none none).registerAll [(⟨"a"⟩, [], .constant (.bool true))] with
      | error e =>
        rw [hfirst] at hbuilt
        cases hbuilt
      | ok g₁ =>
        rw [hfirst] at hbuilt
        exact ((Reachable.registerAll (.empty none none) hfirst).execute none []).registerAll hbuilt
    have hnot := hreadsValid g g' report c hg hexecute hc hcompletes _ hreads
    rw [hfailed] at hnot
    cases hnot

end Graph

end ReactiveScript

import Mathlib.Data.List.Find
import ReactiveScript.Proofs.Graph.Walk

/-!
# Settled nodes

A node is settled under some inputs if it is what its turn would make of it now: blocked by the first
of its dependencies that has failed, or else what its body makes of the values that its dependencies
have.  Being settled is about the graph as it stands and not about how it came about, so graphs with
the same nodes and edges in which all nodes are settled agree.

This needs bodies that look at nothing but their arguments, the inputs and what their node depends
on (`Graph.Local`).

* `Graph.SettledAt` — the notion.
* `Body.LocalTo`, `Body.HeedsOwnUnits` — what bodies may look at.
* `Settling.visitAll` — a walk settles the nodes that it is due to run, and keeps the others settled.
* `nodup_mentions_of_execute` — a walk reports every node once at most.
-/

set_option autoImplicit false

namespace ReactiveScript

open Relation

/-- How a body of a node ends and what it emits is a matter of its arguments, of the inputs and of
the values of the nodes nearby; it asks for no other values. -/
structure Body.LocalTo (b : Body) (id : NodeId) (near : NodeId → Prop) : Prop where
  /-- Other values, and how often it has been called, make no difference. -/
  outcome_eq : ∀ v w : Visit, v.node = id → w.node = id → v.limit = none → w.limit = none →
    v.args = w.args → v.inputs = w.inputs →
    (∀ d, near d → Table.get? d v.values = Table.get? d w.values) →
    (b v).ending = (b w).ending ∧ (b v).footprint.log.emitted = (b w).footprint.log.emitted
  /-- It asks for no other values. -/
  near_of_mem_reads : ∀ v : Visit, v.node = id → v.limit = none →
    ∀ d ∈ (b v).footprint.reads, near d

theorem Body.LocalTo.mono {b : Body} {id : NodeId} {near near' : NodeId → Prop}
    (h : b.LocalTo id near) (hnear : ∀ d, near d → near' d) : b.LocalTo id near' where
  outcome_eq v w hv hw hvl hwl hargs hinputs hvalues :=
    h.outcome_eq v w hv hw hvl hwl hargs hinputs fun d hd => hvalues d (hnear d hd)
  near_of_mem_reads v hv hvl d hd := hnear d (h.near_of_mem_reads v hv hvl d hd)

/-- A body makes the same of inputs that agree about the units that it emits. -/
def Body.HeedsOwnUnits (b : Body) : Prop :=
  ∀ (v : Visit) (inputs : InputTable),
    (∀ u ∈ (b v).footprint.log.emitted.toList,
      Table.get? u.id inputs = Table.get? u.id v.inputs) → b { v with inputs } = b v

/-- The units that nodes show after a walk: completed nodes what they emitted, failed ones nothing,
and all others what they showed before. -/
def Report.show (r : Report) (shown : NodeId → List OutputUnit) (id : NodeId) : List OutputUnit :=
  if id ∈ r.invalidated then [] else (Table.get? id r.outputs).getD (shown id)

/-- The nodes that a report mentions. -/
def Report.mentions (r : Report) : List NodeId := r.invalidated ++ Table.keys r.outputs

namespace Report

variable {r r' : Report} {id j : NodeId} {units : List OutputUnit}
  {shown : NodeId → List OutputUnit}

theorem show_of_quiet (h : r'.quiet = r.quiet) : r'.show shown = r.show shown := by
  funext id
  rw [Report.show, Report.show, invalidated, invalidated, failed_of_quiet h, blocked_of_quiet h,
    outputs_of_quiet h]

theorem mentions_of_quiet (h : r'.quiet = r.quiet) : r'.mentions = r.mentions := by
  rw [mentions, mentions, invalidated, invalidated, failed_of_quiet h, blocked_of_quiet h,
    outputs_of_quiet h]

theorem not_mem_mentions : id ∉ r.mentions ↔ id ∉ r.invalidated ∧ id ∉ Table.keys r.outputs := by
  rw [mentions, List.mem_append, not_or]

theorem show_complete_self (h : id ∉ r.mentions) :
    (r.complete id units).show shown id = units := by
  obtain ⟨hinvalidated, houtputs⟩ := not_mem_mentions.1 h
  have hinvalidated : id ∉ (r.complete id units).invalidated := hinvalidated
  rw [Report.show, if_neg hinvalidated, complete, Table.get?_append,
    Table.get?_eq_none_iff.2 houtputs]
  simp [Table.get?]

theorem show_complete_of_ne (h : j ≠ id) :
    (r.complete id units).show shown j = r.show shown j := by
  rw [Report.show, Report.show, complete, Table.get?_append]
  simp [Table.get?, Ne.symm h, invalidated]

theorem show_fail_self : (r.fail id).show shown id = [] := by
  simp [Report.show, invalidated, fail]

theorem show_fail_of_ne (h : j ≠ id) : (r.fail id).show shown j = r.show shown j := by
  simp [Report.show, invalidated, fail, h]

theorem show_block_self : (r.block id).show shown id = [] := by
  simp [Report.show, invalidated, block]

theorem show_block_of_ne (h : j ≠ id) : (r.block id).show shown j = r.show shown j := by
  simp [Report.show, invalidated, block, h]

end Report

namespace Graph

variable {g g' : Graph} {inputs : InputTable} {id : NodeId} {n : Node}

/-- Nearby is what a node depends on, directly or through others. -/
def Local (g : Graph) : Prop :=
  ∀ id n, g.node? id = some n → n.body.LocalTo id (TransGen g.DependsOn id)

/-- What the body of a node makes of the graph as it stands. -/
def outcomeOf (g : Graph) (inputs : InputTable) (id : NodeId) (n : Node) : Outcome :=
  n.body (g.visitOf inputs id (g.arguments n.params) 0)

/-- What a turn would make of a node in the graph as it stands: a value and units, or a failure. -/
def verdict (g : Graph) (inputs : InputTable) (id : NodeId) (n : Node) :
    Except NodeError (Value × List OutputUnit) :=
  match n.dependencies.find? g.hasFailed with
  | some d => .error (.dependencyFailed d)
  | none =>
    ((g.outcomeOf inputs id n).result none).map fun v =>
      (v, (g.outcomeOf inputs id n).footprint.log.emitted.toList)

/-- What has become of a node agrees with a verdict. -/
def Shows (g : Graph) (shown : NodeId → List OutputUnit) (id : NodeId) (n : Node) :
    Except NodeError (Value × List OutputUnit) → Prop
  | .ok (v, units) =>
    n.status = .completed ∧ n.lastError = none ∧ g.value? id = some v ∧ shown id = units
  | .error e => n.status = .error ∧ n.lastError = some e ∧ shown id = []

/-- The pauses between the attempts at a node fit a duration. -/
def PausesFit (g : Graph) (n : Node) : Prop :=
  ∀ k, 0 < k → k < n.tries g.defaultRetry → n.pauseFits g.defaultRetry k = true

/-- A node is what its turn would make of it.  If it fails by itself, its turn comes to an end. -/
structure SettledAt (g : Graph) (inputs : InputTable) (shown : NodeId → List OutputUnit)
    (id : NodeId) (n : Node) : Prop where
  /-- The node shows its verdict. -/
  shows : g.Shows shown id n (g.verdict inputs id n)
  /-- A failing body can be tried as often as the node asks for. -/
  pausesFit : (∀ d ∈ n.dependencies, g.hasFailed d = false) →
    (∀ w, g.verdict inputs id n ≠ .ok w) → g.PausesFit n

/-- All nodes are settled. -/
def Settled (g : Graph) (inputs : InputTable) (shown : NodeId → List OutputUnit) : Prop :=
  ∀ id n, g.node? id = some n → g.SettledAt inputs shown id n

/-! ## Verdicts -/

theorem hasFailed_eq (hn : g.node? id = some n) : g.hasFailed id = (n.status == .error) := by
  simp [hasFailed, hn]

theorem verdict_of_failed (inputs : InputTable) (id : NodeId) {d : NodeId}
    (hd : n.dependencies.find? g.hasFailed = some d) :
    g.verdict inputs id n = .error (.dependencyFailed d) := by
  rw [verdict, hd]

theorem find?_hasFailed_eq_none :
    n.dependencies.find? g.hasFailed = none ↔ ∀ d ∈ n.dependencies, g.hasFailed d = false := by
  rw [List.find?_eq_none]
  exact forall₂_congr fun d _ => by rw [Bool.not_eq_true]

theorem verdict_of_not_failed (inputs : InputTable) (id : NodeId)
    (h : ∀ d ∈ n.dependencies, g.hasFailed d = false) :
    g.verdict inputs id n = ((g.outcomeOf inputs id n).result none).map fun v =>
      (v, (g.outcomeOf inputs id n).footprint.log.emitted.toList) := by
  rw [verdict, find?_hasFailed_eq_none.2 h]

theorem result_none_congr {o o' : Outcome} (h : o.ending = o'.ending) :
    o.result none = o'.result none := by
  rw [Outcome.result, Outcome.result, h]
  cases o'.ending <;> rfl

/-- A verdict is about what is nearby: whether the dependencies have failed, and the values. -/
theorem verdict_congr {n' : Node} (hlocal : n.body.LocalTo id (TransGen g.DependsOn id))
    (htimeout : g.nodeTimeout = none) (htimeout' : g'.nodeTimeout = none)
    (hbody : n'.body = n.body) (hparams : n'.params = n.params)
    (hfind : n'.dependencies.find? g'.hasFailed = n.dependencies.find? g.hasFailed)
    (hargs : ∀ p ∈ n.params, g'.value? p = g.value? p)
    (hnear : ∀ d, TransGen g.DependsOn id d → g'.value? d = g.value? d) :
    g'.verdict inputs id n' = g.verdict inputs id n := by
  have hvisit : g'.arguments n'.params = g.arguments n.params := by
    rw [hparams, arguments, arguments]
    exact List.map_congr_left fun p hp => by rw [hargs p hp]
  obtain ⟨hending, hemitted⟩ := hlocal.outcome_eq
    (g'.visitOf inputs id (g'.arguments n'.params) 0) (g.visitOf inputs id (g.arguments n.params) 0)
    rfl rfl htimeout' htimeout hvisit rfl hnear
  rw [verdict, verdict, hfind, outcomeOf, outcomeOf, hbody, result_none_congr hending, hemitted]

/-! ## The turn of a node comes to its verdict -/

section Turns

variable {recompute : Option (List NodeId)} {r r' : Report} {calls : List Call}
  {shown : NodeId → List OutputUnit}

/-- What a turn that runs to its end makes of its node. -/
structure ComesTo (g g' : Graph) (inputs : InputTable) (shown : NodeId → List OutputUnit)
    (id : NodeId) (n n' : Node) : Prop where
  /-- The node is still there. -/
  node? : g'.node? id = some n'
  /-- It does what it did. -/
  body_eq : n'.body = n.body
  /-- It does what it did. -/
  params_eq : n'.params = n.params
  /-- It is tried as often as it was. -/
  retry_eq : n'.retry = n.retry
  /-- It does not lose a dependency. -/
  dependencies_subset : n.dependencies ⊆ n'.dependencies
  /-- It shows its verdict. -/
  shows : g'.Shows shown id n' (g.verdict inputs id n)
  /-- If it fails, it keeps its dependencies and its value. -/
  of_error : ∀ e, g.verdict inputs id n = .error e →
    n'.dependencies = n.dependencies ∧ g'.value? id = g.value? id
  /-- If it fails by itself, its pauses fit. -/
  pausesFit : (∀ d ∈ n.dependencies, g.hasFailed d = false) →
    (∀ w, g.verdict inputs id n ≠ .ok w) → g.PausesFit n
  /-- What it depends on now it depended on before or has read. -/
  mem_dependencies : ∀ d ∈ n'.dependencies, d ∈ n.dependencies ∨
    ∃ call, d ∈ (n.body (g.visitOf inputs id (g.arguments n.params) call)).footprint.reads

/-- A call of a local body counts as its verdict. -/
theorem result_visitOf (inputs : InputTable)
    (hlocal : n.body.LocalTo id (TransGen g.DependsOn id))
    (htimeout : g.nodeTimeout = none) (call : Nat) :
    (n.body (g.visitOf inputs id (g.arguments n.params) call)).result g.nodeTimeout
        = (g.outcomeOf inputs id n).result none ∧
      (n.body (g.visitOf inputs id (g.arguments n.params) call)).footprint.log.emitted
        = (g.outcomeOf inputs id n).footprint.log.emitted := by
  obtain ⟨hending, hemitted⟩ := hlocal.outcome_eq
    (g.visitOf inputs id (g.arguments n.params) call) (g.visitOf inputs id (g.arguments n.params) 0)
    rfl rfl htimeout htimeout rfl rfl fun _ _ => rfl
  exact ⟨by rw [htimeout]; exact result_none_congr hending, hemitted⟩

theorem Turn.comesTo (shown : NodeId → List OutputUnit)
    (hlocal : n.body.LocalTo id (TransGen g.DependsOn id))
    (htimeout : g.nodeTimeout = none) (hn : g.node? id = some n)
    (hselects : g.selects recompute id n = true) (hmentions : id ∉ r.mentions)
    (h : Turn g recompute inputs id r calls (some r') g') :
    ∃ n', g.ComesTo g' inputs (r'.show shown) id n n' := by
  cases h with
  | skipped hskipped => exact absurd hselects (by rw [hskipped n hn]; exact Bool.false_ne_true)
  | @blocked m d hm _ hfind =>
    obtain rfl : n = m := Option.some.inj (hn.symm.trans hm)
    have hverdict := verdict_of_failed inputs id hfind
    refine ⟨(n.blocked d).settle, ?_, rfl, rfl, rfl, List.Subset.refl _, ?_, fun _ _ => ⟨rfl, rfl⟩,
      fun hall => ?_, fun k hk => Or.inl hk⟩
    · rw [node?_update, if_pos rfl, hn]
      rfl
    · rw [hverdict]
      exact ⟨rfl, rfl, Report.show_block_self⟩
    · rw [find?_hasFailed_eq_none.2 hall] at hfind
      cases hfind
  | @ran m calls o g' hm _ hall hcalls hrun hattempted =>
    obtain rfl : n = m := Option.some.inj (hn.symm.trans hm)
    have hverdict := verdict_of_not_failed inputs id hall
    cases hattempted with
    | @completed f failures visit v r'' hf _ hvisit hresult hr =>
      obtain ⟨call, rfl⟩ := hvisit
      obtain ⟨hsame, hemitted⟩ := result_visitOf inputs hlocal htimeout call
      rw [← hsame, hresult, ← hemitted] at hverdict
      have hfn : (g.update id f).node? id = some (f n) := by
        rw [node?_update, if_pos rfl, hn]
        rfl
      obtain ⟨ds, hds, hsub⟩ := node?_complete hfn v
        (n.body (g.visitOf inputs id (g.arguments n.params) call)).footprint
      have hkept := (keeps_complete (g.update id f) id v
        (n.body (g.visitOf inputs id (g.arguments n.params) call)).footprint).node? _ hfn
      obtain ⟨n', hn', -, -, -, hgrow⟩ := hkept
      obtain rfl := Option.some.inj (hds.symm.trans hn')
      rw [hf.dependencies_eq] at hgrow hsub
      refine ⟨_, hds, hf.body_eq n, hf.params_eq n, hf.retry_eq n, hgrow, ?_, fun e he => ?_,
        fun _ hnot => ?_, fun d hd => (hsub d hd).imp_right fun h => ⟨call, h⟩⟩
      · rw [hverdict]
        refine ⟨rfl, rfl, value?_complete _ id v _, Report.show_complete_self ?_⟩
        rwa [Report.mentions_of_quiet hr]
      · cases hverdict.symm.trans he
      · exact absurd hverdict (hnot _)
    | @failed f failures visit e r'' hf hend hfailures hvisit hresult hr =>
      obtain ⟨call, rfl⟩ := hvisit
      obtain ⟨hsame, -⟩ := result_visitOf inputs hlocal htimeout call
      rw [← hsame, hresult] at hverdict
      refine ⟨f n, ?_, hf.body_eq n, hf.params_eq n, hf.retry_eq n, ?_, ?_, fun _ _ => ⟨?_, rfl⟩,
        fun _ _ k hk hk' => ?_, fun d hd => Or.inl ?_⟩
      · rw [node?_update, if_pos rfl, hn]
        rfl
      · rw [hf.dependencies_eq]
        exact List.Subset.refl _
      · rw [hverdict]
        exact ⟨(hend n).1, (hend n).2, Report.show_fail_self⟩
      · exact hf.dependencies_eq n
      · have hreturns := congrArg Prod.fst hrun
        rw [hcalls] at hfailures
        exact fits_of_attempt hreturns.symm hfailures hk (by omega)
      · rwa [hf.dependencies_eq] at hd

/-- A turn changes nothing that is shown of other nodes. -/
theorem Turn.show_of_ne (shown : NodeId → List OutputUnit)
    (h : Turn g recompute inputs id r calls (some r') g') {j : NodeId} (hj : j ≠ id) :
    r'.show shown j = r.show shown j ∧ (j ∈ r'.mentions → j ∈ r.mentions) := by
  cases h with
  | skipped _ => exact ⟨rfl, fun h => h⟩
  | blocked _ _ _ =>
    exact ⟨Report.show_block_of_ne hj, by simp [Report.mentions, Report.invalidated, Report.block, hj]⟩
  | ran _ _ _ _ _ hattempted =>
    cases hattempted with
    | completed _ _ _ _ hr =>
      rw [Report.show_complete_of_ne hj, Report.show_of_quiet hr, ← Report.mentions_of_quiet hr]
      exact ⟨rfl, by simp [Report.mentions, Report.invalidated, Report.complete, Table.keys, hj]⟩
    | failed _ _ _ _ _ hr =>
      rw [Report.show_fail_of_ne hj, Report.show_of_quiet hr, ← Report.mentions_of_quiet hr]
      exact ⟨rfl, by simp [Report.mentions, Report.invalidated, Report.fail, hj]⟩

end Turns

/-! ## A walk settles nodes -/

/-- A node is settled as long as nothing nearby changes. -/
theorem SettledAt.congr {shown shown' : NodeId → List OutputUnit} {n' : Node}
    (h : g.SettledAt inputs shown id n) (hn : g.node? id = some n) (hg : g.WellFormed) (hlocal : g.Local) (htimeout : g.nodeTimeout = none)
    (htimeout' : g'.nodeTimeout = none) (hretry : g'.defaultRetry = g.defaultRetry)
    (hcore : n'.core = n.core) (hvalue : g'.value? id = g.value? id) (hshown : shown' id = shown id)
    (hnear : ∀ d, TransGen g.DependsOn id d →
      g'.hasFailed d = g.hasFailed d ∧ g'.value? d = g.value? d) :
    g'.SettledAt inputs shown' id n' := by
  have hbody : n'.body = n.body := (congrArg Node.body hcore :)
  have hparams : n'.params = n.params := (congrArg Node.params hcore :)
  have hdependencies : n'.dependencies = n.dependencies := (congrArg Node.dependencies hcore :)
  have hstatus : n'.status = n.status := (congrArg Node.status hcore :)
  have herror : n'.lastError = n.lastError := (congrArg Node.lastError hcore :)
  have hpolicy : n'.retry = n.retry := (congrArg Node.retry hcore :)
  have hnearby : ∀ d ∈ n.dependencies, TransGen g.DependsOn id d := fun d hd =>
    .single (by rwa [DependsOn, dependenciesOf_eq hn])
  have hfailed : ∀ d ∈ n.dependencies, g'.hasFailed d = g.hasFailed d := fun d hd =>
    (hnear d (hnearby d hd)).1
  have hverdict : g'.verdict inputs id n' = g.verdict inputs id n := by
    refine verdict_congr (hlocal id n hn) htimeout htimeout' hbody hparams ?_ (fun p hp => ?_)
      fun d hd => (hnear d hd).2
    · rw [hdependencies]
      exact List.find?_congr hfailed
    · refine (hnear p (hnearby p ?_)).2
      rw [← dependenciesOf_eq hn]
      exact hg.params_subset id (by rwa [paramsOf_eq hn])
  refine ⟨?_, fun hall hnot => ?_⟩
  · have hshows := h.shows
    rw [hverdict]
    cases hv : g.verdict inputs id n with
    | ok w =>
      rw [hv] at hshows
      obtain ⟨hs, he, hw, hu⟩ := hshows
      exact ⟨hstatus.trans hs, herror.trans he, hvalue.trans hw, hshown.trans hu⟩
    | error e =>
      rw [hv] at hshows
      obtain ⟨hs, he, hu⟩ := hshows
      exact ⟨hstatus.trans hs, herror.trans he, hshown.trans hu⟩
  · rw [hdependencies] at hall
    rw [hverdict] at hnot
    have hfits := h.pausesFit (fun d hd => (hfailed d hd).symm.trans (hall d hd)) hnot
    intro k hk hk'
    rw [Node.tries, hpolicy, hretry] at hk'
    rw [Node.pauseFits, hpolicy, hretry]
    exact hfits k hk hk'

/-- A settled node with a failed dependency has failed. -/
theorem SettledAt.hasFailed {shown : NodeId → List OutputUnit} (h : g.SettledAt inputs shown id n)
    (hn : g.node? id = some n) {d : NodeId} (hd : d ∈ n.dependencies)
    (hfailed : g.hasFailed d = true) : g.hasFailed id = true := by
  obtain ⟨k, hk⟩ := Option.isSome_iff_exists.1 (List.find?_isSome.2 ⟨d, hd, hfailed⟩)
  have hshows := h.shows
  rw [verdict_of_failed inputs id hk] at hshows
  rw [hasFailed_eq hn, hshows.1]
  rfl

/-- A failure blocks everything that depends on it, as far as nodes are settled. -/
theorem hasFailed_of_transGen {shown : NodeId → List OutputUnit} {done : List NodeId}
    (hclosed : ∀ a ∈ done, ∀ b, g.DependsOn a b → b ∈ done)
    (hsettled : ∀ a n, g.node? a = some n → a ∈ done → g.SettledAt inputs shown a n)
    {a b : NodeId} (hab : TransGen g.DependsOn a b) (ha : a ∈ done) (hb : g.hasFailed b = true) :
    g.hasFailed a = true := by
  have hstep : ∀ a c, g.DependsOn a c → a ∈ done → g.hasFailed c = true →
      g.hasFailed a = true := by
    intro a c hac ha hc
    obtain ⟨n, hn⟩ := mem_ids_iff.1 (mem_ids_of_mem_dependenciesOf hac)
    rw [DependsOn, dependenciesOf_eq hn] at hac
    exact (hsettled a n hn ha).hasFailed hn hac hc
  induction hab using TransGen.head_induction_on with
  | single hab => exact hstep _ _ hab ha hb
  | head hac _ ih => exact hstep _ _ hac ha (ih (hclosed _ ha _ hac))

/-- If no dependency of a node has failed, nothing that it depends on has. -/
theorem not_hasFailed_of_transGen {shown : NodeId → List OutputUnit} {done : List NodeId}
    (hclosed : ∀ a ∈ done, ∀ b, g.DependsOn a b → b ∈ done)
    (hsettled : ∀ a n, g.node? a = some n → a ∈ done → g.SettledAt inputs shown a n)
    (hn : g.node? id = some n) (hdone : ∀ d ∈ n.dependencies, d ∈ done)
    (hall : ∀ d ∈ n.dependencies, g.hasFailed d = false) {d : NodeId}
    (hd : TransGen g.DependsOn id d) : g.hasFailed d = false := by
  obtain ⟨c, hc, hcd⟩ := TransGen.head'_iff.1 hd
  rw [DependsOn, dependenciesOf_eq hn] at hc
  rcases reflTransGen_iff_eq_or_transGen.1 hcd with rfl | hcd
  · exact hall d hc
  · rw [← Bool.not_eq_true]
    intro hd
    have hfailed := hasFailed_of_transGen hclosed hsettled hcd (hdone c hc) hd
    rw [hall c hc] at hfailed
    cases hfailed

namespace ComesTo

variable {shown : NodeId → List OutputUnit} {n' : Node}

/-- New edges lead where old ones led already. -/
theorem transGen_of_dependsOn (h : g.ComesTo g' inputs shown id n n') (hkeeps : g.Keeps g' id)
    (hn : g.node? id = some n) (hlocal : g.Local) (htimeout : g.nodeTimeout = none) {a b : NodeId}
    (hab : g'.DependsOn a b) : TransGen g.DependsOn a b := by
  by_cases ha : a = id
  · subst ha
    rw [DependsOn, dependenciesOf_eq h.node?] at hab
    rcases h.mem_dependencies b hab with hb | ⟨call, hb⟩
    · exact .single (by rwa [DependsOn, dependenciesOf_eq hn])
    · exact (hlocal a n hn).near_of_mem_reads _ rfl htimeout b hb
  · rw [DependsOn, hkeeps.dependenciesOf_eq ha] at hab
    exact .single hab

theorem dependsOn (h : g.ComesTo g' inputs shown id n n') (hkeeps : g.Keeps g' id)
    (hn : g.node? id = some n) {a b : NodeId} (hab : g.DependsOn a b) : g'.DependsOn a b := by
  by_cases ha : a = id
  · subst ha
    rw [DependsOn, dependenciesOf_eq hn] at hab
    rw [DependsOn, dependenciesOf_eq h.node?]
    exact h.dependencies_subset hab
  · rwa [DependsOn, hkeeps.dependenciesOf_eq ha]

/-- A turn does not change the verdict on its node. -/
theorem verdict_eq (h : g.ComesTo g' inputs shown id n n') (hkeeps : g.Keeps g' id)
    (hn : g.node? id = some n) (hg : g.WellFormed) (hlocal : g.Local)
    (htimeout : g.nodeTimeout = none)
    (hfailed : (∀ d ∈ n.dependencies, g.hasFailed d = false) →
      ∀ d, TransGen g.DependsOn id d → g.hasFailed d = false) :
    g'.verdict inputs id n' = g.verdict inputs id n := by
  have hne : ∀ d, TransGen g.DependsOn id d → d ≠ id := fun d hd heq =>
    hg.acyclic id (heq ▸ hd)
  have hsame : ∀ d, TransGen g.DependsOn id d → g'.hasFailed d = g.hasFailed d := fun d hd =>
    hasFailed_congr (hkeeps.core_eq d (hne d hd))
  have hdependency : ∀ d ∈ n.dependencies, TransGen g.DependsOn id d := fun d hd =>
    .single (by rwa [DependsOn, dependenciesOf_eq hn])
  refine verdict_congr (hlocal id n hn) htimeout (hkeeps.nodeTimeout_eq.trans htimeout) h.body_eq
    h.params_eq ?_ (fun p hp => ?_) fun d hd => hkeeps.value?_eq d (hne d hd)
  · cases hfind : n.dependencies.find? g.hasFailed with
    | some d =>
      rw [(h.of_error _ (verdict_of_failed inputs id hfind)).1, ← hfind]
      exact List.find?_congr fun d hd => hsame d (hdependency d hd)
    | none =>
      have hall := hfailed (find?_hasFailed_eq_none.1 hfind)
      refine find?_hasFailed_eq_none.2 fun d hd => ?_
      have hd : TransGen g.DependsOn id d := by
        refine h.transGen_of_dependsOn hkeeps hn hlocal htimeout ?_
        rwa [DependsOn, dependenciesOf_eq h.node?]
      exact (hsame d hd).trans (hall d hd)
  · refine hkeeps.value?_eq p (hne p (hdependency p ?_))
    rw [← dependenciesOf_eq hn]
    exact hg.params_subset id (by rwa [paramsOf_eq hn])

/-- **A node that has had its turn is settled.** -/
theorem settledAt (h : g.ComesTo g' inputs shown id n n') (hkeeps : g.Keeps g' id)
    (hn : g.node? id = some n) (hg : g.WellFormed) (hlocal : g.Local)
    (htimeout : g.nodeTimeout = none)
    (hfailed : (∀ d ∈ n.dependencies, g.hasFailed d = false) →
      ∀ d, TransGen g.DependsOn id d → g.hasFailed d = false) :
    g'.SettledAt inputs shown id n' := by
  have hverdict := h.verdict_eq hkeeps hn hg hlocal htimeout hfailed
  refine ⟨by rw [hverdict]; exact h.shows, fun hall hnot => ?_⟩
  rw [hverdict] at hnot
  have hall : ∀ d ∈ n.dependencies, g.hasFailed d = false := by
    intro d hd
    have hdid : d ≠ id := by
      rintro rfl
      exact hg.acyclic d (.single (by rwa [DependsOn, dependenciesOf_eq hn]))
    rw [← hasFailed_congr (hkeeps.core_eq d hdid)]
    exact hall d (h.dependencies_subset hd)
  intro k hk hk'
  rw [Node.tries, h.retry_eq, hkeeps.defaultRetry_eq] at hk'
  rw [Node.pauseFits, h.retry_eq, hkeeps.defaultRetry_eq]
  exact h.pausesFit hall hnot k hk hk'

/-- A turn of a settled node changes nothing that other nodes could see. -/
theorem eq_of_settledAt {shown' : NodeId → List OutputUnit} (h : g.ComesTo g' inputs shown id n n')
    (hn : g.node? id = some n) (hsettled : g.SettledAt inputs shown' id n) :
    g'.hasFailed id = g.hasFailed id ∧ g'.value? id = g.value? id := by
  have hshows := h.shows
  have hbefore := hsettled.shows
  rw [hasFailed_eq hn, hasFailed_eq h.node?]
  cases hv : g.verdict inputs id n with
  | ok w =>
    rw [hv] at hshows hbefore
    exact ⟨by rw [hshows.1, hbefore.1], hshows.2.2.1.trans hbefore.2.2.1.symm⟩
  | error e =>
    rw [hv] at hshows hbefore
    exact ⟨by rw [hshows.1, hbefore.1], (h.of_error e hv).2⟩

end ComesTo

/-- Where a walk is, and what is settled by then: the nodes that have had their turn, and those that
it is not due to run. -/
structure Settling (g : Graph) (inputs : InputTable) (shown : NodeId → List OutputUnit)
    (due : NodeId → Prop) (done rest : List NodeId) (r : Report) : Prop where
  /-- The shape is sound. -/
  wellFormed : g.WellFormed
  /-- All bodies are local. -/
  isLocal : g.Local
  /-- Bodies may take as long as they like. -/
  timeout : g.nodeTimeout = none
  /-- The turns to come are those of the nodes that are left. -/
  lists : g.Lists done rest
  /-- Nodes have their turn after what they depend on. -/
  closed : ∀ a ∈ done, ∀ b, g.DependsOn a b → b ∈ done
  /-- What depends on a node that is due is due. -/
  due_of_dependsOn : ∀ a b, g.DependsOn a b → due b → due a
  /-- The nodes that are settled. -/
  settled : ∀ id n, g.node? id = some n → id ∈ done ∨ ¬ due id →
    g.SettledAt inputs (r.show shown) id n
  /-- The report mentions no node before its turn. -/
  mentions : ∀ id ∈ r.mentions, id ∈ done

namespace Settling

variable {shown : NodeId → List OutputUnit} {due : NodeId → Prop} {done rest : List NodeId}
  {r : Report}

theorem mem_done_of_transGen (h : g.Settling inputs shown due done rest r) {a b : NodeId}
    (hab : TransGen g.DependsOn a b) (ha : a ∈ done) : b ∈ done := by
  induction hab with
  | single hab => exact h.closed _ ha _ hab
  | tail _ hbc ih => exact h.closed _ ih _ hbc

theorem due_of_transGen (h : g.Settling inputs shown due done rest r) {a b : NodeId}
    (hab : TransGen g.DependsOn a b) (hb : due b) : due a := by
  induction hab with
  | single hab => exact h.due_of_dependsOn _ _ hab hb
  | tail _ hbc ih => exact ih (h.due_of_dependsOn _ _ hbc hb)

theorem mem_ids (h : g.Settling inputs shown due done (id :: rest) r) : id ∈ g.ids :=
  (h.lists.mem_iff.1 List.mem_cons_self).1

theorem not_mem_done (h : g.Settling inputs shown due done (id :: rest) r) : id ∉ done :=
  (h.lists.mem_iff.1 List.mem_cons_self).2

/-- What the next node depends on has had its turn. -/
theorem mem_done (h : g.Settling inputs shown due done (id :: rest) r) {d : NodeId}
    (hd : TransGen g.DependsOn id d) : d ∈ done := by
  have hready := h.lists.split []
  rw [List.append_nil] at hready
  rcases TransGen.head'_iff.1 hd with ⟨c, hc, hcd⟩
  have hc : c ∈ done := hready.dependencies_subset hc
  rcases reflTransGen_iff_eq_or_transGen.1 hcd with rfl | hcd
  · exact hc
  · exact h.mem_done_of_transGen hcd hc

/-- If no dependency of the next node has failed, nothing that it depends on has. -/
theorem not_hasFailed (h : g.Settling inputs shown due done (id :: rest) r)
    (hn : g.node? id = some n) (hall : ∀ d ∈ n.dependencies, g.hasFailed d = false) {d : NodeId}
    (hd : TransGen g.DependsOn id d) : g.hasFailed d = false := by
  refine not_hasFailed_of_transGen h.closed (fun a n hn ha => h.settled a n hn (Or.inl ha)) hn
    (fun c hc => h.mem_done (.single ?_)) hall hd
  rwa [DependsOn, dependenciesOf_eq hn]

/-- A node that is not selected is settled already. -/
theorem skip (h : g.Settling inputs shown due done (id :: rest) r) (hdue : ¬ due id) :
    g.Settling inputs shown due (done ++ [id]) rest r where
  wellFormed := h.wellFormed
  isLocal := h.isLocal
  timeout := h.timeout
  lists := by
    have := h.lists.drop [id]
    exact this
  closed a ha b hab := by
    rcases List.mem_append.1 ha with ha | ha
    · exact List.mem_append_left _ (h.closed a ha b hab)
    · obtain rfl := List.mem_singleton.1 ha
      exact List.mem_append_left _ (h.mem_done (.single hab))
  due_of_dependsOn := h.due_of_dependsOn
  settled j n hn hj := by
    refine h.settled j n hn ?_
    rcases hj with hj | hj
    · rcases List.mem_append.1 hj with hj | hj
      · exact Or.inl hj
      · exact Or.inr (List.mem_singleton.1 hj ▸ hdue)
    · exact Or.inr hj
  mentions j hj := List.mem_append_left _ (h.mentions j hj)

/-- A turn that comes to its verdict. -/
theorem comesTo {recompute : Option (List NodeId)} {calls : List Call} {r' : Report}
    (h : g.Settling inputs shown due done (id :: rest) r)
    (hturn : Turn g recompute inputs id r calls (some r') g') (hn : g.node? id = some n)
    (hselects : g.selects recompute id n = true) :
    g'.Settling inputs shown due (done ++ [id]) rest r' := by
  obtain ⟨n', hcomes⟩ := hturn.comesTo shown (h.isLocal id n hn) h.timeout hn hselects
    fun hid => h.not_mem_done (h.mentions id hid)
  have hkeeps := hturn.keeps
  have hnear : ∀ {a b}, g'.DependsOn a b → TransGen g.DependsOn a b :=
    hcomes.transGen_of_dependsOn hkeeps hn h.isLocal h.timeout
  have hself := hcomes.settledAt hkeeps hn h.wellFormed h.isLocal h.timeout
    fun hall d hd => h.not_hasFailed hn hall hd
  have hlists : g.Lists (done ++ [id]) rest := h.lists.drop [id]
  have hnode : ∀ {j m}, j ≠ id → g'.node? j = some m →
      ∃ m₀, g.node? j = some m₀ ∧ m.core = m₀.core := by
    intro j m hj hm
    have hcore := hkeeps.core_eq j hj
    rw [hm, Option.map_some] at hcore
    obtain ⟨m₀, hm₀, hcore⟩ := Option.map_eq_some_iff.1 hcore.symm
    exact ⟨m₀, hm₀, hcore.symm⟩
  refine ⟨hkeeps.wellFormed h.wellFormed, fun j m hm => ?_, hkeeps.nodeTimeout_eq.trans h.timeout,
    hlists.congr hkeeps.ids_eq fun j hj => hkeeps.dependenciesOf_eq ?_, fun a ha b hab => ?_,
    fun a b hab hb => h.due_of_transGen (hnear hab) hb, fun j m hm hj => ?_, fun j hj => ?_⟩
  · have hmono : ∀ d, TransGen g.DependsOn j d → TransGen g'.DependsOn j d := fun d hd =>
      TransGen.mono (fun _ _ hab => hcomes.dependsOn hkeeps hn hab) j d hd
    by_cases hjid : j = id
    · subst hjid
      obtain rfl := Option.some.inj (hm.symm.trans hcomes.node?)
      rw [hcomes.body_eq]
      exact (h.isLocal j n hn).mono hmono
    · obtain ⟨m₀, hm₀, hcore⟩ := hnode hjid hm
      have hbody : m.body = m₀.body := (congrArg Node.body hcore :)
      rw [hbody]
      exact (h.isLocal j m₀ hm₀).mono hmono
  · rintro rfl
    exact hj (by simp)
  · rcases List.mem_append.1 ha with ha | ha
    · exact List.mem_append_left _ (h.mem_done_of_transGen (hnear hab) ha)
    · obtain rfl := List.mem_singleton.1 ha
      exact List.mem_append_left _ (h.mem_done (hnear hab))
  · by_cases hjid : j = id
    · subst hjid
      obtain rfl := Option.some.inj (hm.symm.trans hcomes.node?)
      exact hself
    · obtain ⟨m₀, hm₀, hcore⟩ := hnode hjid hm
      have hold : j ∈ done ∨ ¬ due j := by simpa [hjid] using hj
      refine (h.settled j m₀ hm₀ hold).congr hm₀ h.wellFormed h.isLocal h.timeout
        (hkeeps.nodeTimeout_eq.trans h.timeout) hkeeps.defaultRetry_eq hcore
        (hkeeps.value?_eq j hjid) (hturn.show_of_ne shown hjid).1 fun d hd => ?_
      by_cases hdid : d = id
      · -- Its turn comes after that of `j`, so neither is due.
        subst hdid
        have hdue : ¬ due d := by
          rcases hold with hj | hj
          · exact absurd (h.mem_done_of_transGen hd hj) h.not_mem_done
          · exact fun hdue => hj (h.due_of_transGen hd hdue)
        exact hcomes.eq_of_settledAt hn (h.settled d n hn (Or.inr hdue))
      · exact ⟨hasFailed_congr (hkeeps.core_eq d hdid), hkeeps.value?_eq d hdid⟩
  · by_cases hjid : j = id
    · simp [hjid]
    · exact List.mem_append_left _ (h.mentions j ((hturn.show_of_ne shown hjid).2 hj))

/-- **A turn settles its node, and keeps settled what was.** -/
theorem visit {recompute : Option (List NodeId)} {r' : Report}
    (h : g.Settling inputs shown due done (id :: rest) r)
    (hdue : ∀ g n, due id → selects g recompute id n = true)
    (hvisit : g.visit recompute inputs id r = (some r', g')) :
    g'.Settling inputs shown due (done ++ [id]) rest r' := by
  have hturn := visit_turn g recompute inputs id r
  rw [hvisit] at hturn
  obtain ⟨n, hn⟩ := mem_ids_iff.1 h.mem_ids
  cases hselects : g.selects recompute id n with
  | true => exact h.comesTo hturn hn hselects
  | false =>
    have hskip := h.skip fun h => by rw [hdue g n h] at hselects; cases hselects
    rw [Graph.visit, hn] at hvisit
    simp only [hselects, Bool.not_false, if_true] at hvisit
    cases hvisit
    exact hskip

/-- What a walk is due to run it settles. -/
theorem visitAll {recompute : Option (List NodeId)} {r' : Report}
    (h : g.Settling inputs shown due done rest r)
    (hdue : ∀ id g n, due id → selects g recompute id n = true)
    (hwalk : Graph.visitAll recompute inputs rest g r = (some r', g')) :
    g'.Settling inputs shown due (done ++ rest) [] r' := by
  induction rest generalizing g done r with
  | nil =>
    cases hwalk
    rwa [List.append_nil]
  | cons id rest ih =>
    obtain ⟨r₁, g₁, hvisit, hrest⟩ := visitAll_cons hwalk
    have := ih (h.visit (hdue id) hvisit) hrest
    rwa [List.append_assoc] at this

end Settling

/-! ## What a report mentions -/

section Mentions

variable {recompute : Option (List NodeId)} {r r' : Report} {calls : List Call}

/-- A turn lets the report mention its node, if anything. -/
theorem Turn.mentions_perm (h : Turn g recompute inputs id r calls (some r') g') :
    r'.mentions.Perm r.mentions ∨ r'.mentions.Perm (id :: r.mentions) := by
  cases h with
  | skipped _ => exact Or.inl (.refl _)
  | blocked _ _ _ =>
    refine Or.inr ?_
    have hmiddle : (r.invalidated ++ id :: Table.keys r.outputs).Perm
        (id :: (r.invalidated ++ Table.keys r.outputs)) := List.perm_middle
    simpa [Report.mentions, Report.invalidated, Report.block] using hmiddle
  | ran _ _ _ _ _ hattempted =>
    refine Or.inr ?_
    cases hattempted with
    | @completed _ _ _ _ r'' _ _ _ _ hr =>
      rw [← Report.mentions_of_quiet hr]
      simp only [Report.mentions, Report.invalidated, Report.complete, Table.keys, List.map_append,
        List.map_singleton]
      rw [← List.append_assoc]
      exact List.perm_append_singleton _ _
    | @failed _ _ _ _ r'' _ _ _ _ _ hr =>
      rw [← Report.mentions_of_quiet hr]
      simp only [Report.mentions, Report.invalidated, Report.fail, List.append_assoc]
      exact List.perm_middle

/-- A walk mentions each node at most once, at its turn. -/
theorem nodup_mentions_of_visitAll {ids : List NodeId} (hids : ids.Nodup)
    (hr : r.mentions.Nodup) (hdisjoint : ∀ j ∈ r.mentions, j ∉ ids)
    (h : visitAll recompute inputs ids g r = (some r', g')) :
    r'.mentions.Nodup ∧ ∀ j ∈ r'.mentions, j ∈ r.mentions ∨ j ∈ ids := by
  induction ids generalizing g r with
  | nil =>
    cases h
    exact ⟨hr, fun j hj => Or.inl hj⟩
  | cons id ids ih =>
    obtain ⟨r₁, g₁, hvisit, hrest⟩ := visitAll_cons h
    obtain ⟨hid, hids⟩ := List.nodup_cons.1 hids
    have hturn := visit_turn g recompute inputs id r
    rw [hvisit] at hturn
    have hstep : r₁.mentions.Nodup ∧ ∀ j ∈ r₁.mentions, j ∈ r.mentions ∨ j = id := by
      have hnew : id ∉ r.mentions := fun hmem => hdisjoint id hmem List.mem_cons_self
      rcases hturn.mentions_perm with hperm | hperm
      · exact ⟨hperm.nodup_iff.2 hr, fun j hj => Or.inl (hperm.mem_iff.1 hj)⟩
      · refine ⟨hperm.nodup_iff.2 (List.nodup_cons.2 ⟨hnew, hr⟩), fun j hj => ?_⟩
        exact (List.mem_cons.1 (hperm.mem_iff.1 hj)).symm
    have hnext : ∀ j ∈ r₁.mentions, j ∉ ids := by
      intro j hj hmem
      rcases hstep.2 j hj with hj | rfl
      · exact hdisjoint j hj (List.mem_cons_of_mem _ hmem)
      · exact hid hmem
    obtain ⟨hnodup, hsub⟩ := ih hids hstep.1 hnext hrest
    refine ⟨hnodup, fun j hj => ?_⟩
    rcases hsub j hj with hj | hj
    · rcases hstep.2 j hj with hj | rfl
      · exact Or.inl hj
      · exact Or.inr List.mem_cons_self
    · exact Or.inr (List.mem_cons_of_mem _ hj)

/-- **A report mentions no node twice**, and none that is not there. -/
theorem nodup_mentions_of_execute (hg : g.WellFormed)
    (h : g.execute recompute inputs = (some r, g')) :
    r.mentions.Nodup ∧ ∀ j ∈ r.mentions, j ∈ g.ids := by
  obtain ⟨hnodup, hsub⟩ := nodup_mentions_of_visitAll (r := .empty) hg.nodup_order List.nodup_nil
    (fun j hj => absurd hj List.not_mem_nil) h
  exact ⟨hnodup, fun j hj => hg.mem_order_iff.1 ((hsub j hj).resolve_left List.not_mem_nil)⟩

end Mentions

end Graph

end ReactiveScript

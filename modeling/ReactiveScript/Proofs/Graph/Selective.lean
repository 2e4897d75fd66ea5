import ReactiveScript.Proofs.Graph.Agreement

/-!
# Selective walks

A session does not run all nodes again when inputs change, but those that depend on the change.  This
file shows that nothing is lost by that, over any number of changes: if every table of inputs differs
from the one before in what the named nodes make of it only, the graph ends up as one walk over all
of its nodes under the last table would leave it.

* `Graph.walks` — a walk over all nodes, and then one over what is affected by every change.
* `selective_walks_equal_full_walk` — the theorem, for bodies that look at nothing but their
  arguments, the inputs and declared reads.
-/

set_option autoImplicit false

namespace ReactiveScript

open Relation

/-- A body makes the same of two tables of inputs. -/
def Body.Ignores (b : Body) (id : NodeId) (inputs inputs' : InputTable) : Prop :=
  ∀ v : Visit, v.node = id → v.limit = none →
    (b { v with inputs := inputs' }).ending = (b { v with inputs := inputs }).ending ∧
      (b { v with inputs := inputs' }).footprint.log.emitted
        = (b { v with inputs := inputs }).footprint.log.emitted

namespace Graph

variable {g g' : Graph} {inputs inputs' : InputTable} {shown shown' : NodeId → List OutputUnit}
  {steps : List (List NodeId × InputTable)}

/-! ## Sequences of walks -/

/-- Walks over what some nodes affect, each under its own inputs. -/
def selectiveWalks (g : Graph) (shown : NodeId → List OutputUnit) :
    List (List NodeId × InputTable) → Option (Graph × (NodeId → List OutputUnit))
  | [] => some (g, shown)
  | (changed, inputs) :: steps =>
    match g.execute (some (g.affected changed)) inputs with
    | (none, _) => none
    | (some r, g) => g.selectiveWalks (r.show shown) steps

/-- A walk over all nodes, and then selective ones; there is no result if one of them breaks off. -/
def walks (g : Graph) (inputs : InputTable) (steps : List (List NodeId × InputTable)) :
    Option (Graph × (NodeId → List OutputUnit)) :=
  match g.execute none inputs with
  | (none, _) => none
  | (some r, g) => g.selectiveWalks (r.show fun _ => []) steps

/-- The inputs of the last walk. -/
def finalInputs (inputs : InputTable) : List (List NodeId × InputTable) → InputTable
  | [] => inputs
  | (_, inputs) :: steps => finalInputs inputs steps

/-- Every table differs from the one before only in what the nodes that are named make of it. -/
def Covers (g : Graph) : InputTable → List (List NodeId × InputTable) → Prop
  | _, [] => True
  | inputs, (changed, inputs') :: steps =>
    (∀ id n, g.node? id = some n → id ∉ changed → n.body.Ignores id inputs inputs') ∧
      g.Covers inputs' steps

theorem Covers.of_later (h : g.Covers inputs steps) (hlater : g.Later g') :
    g'.Covers inputs steps := by
  induction steps generalizing inputs with
  | nil => trivial
  | cons step steps ih =>
    refine ⟨fun id n' hn' hid => ?_, ih h.2⟩
    obtain ⟨n, hn⟩ := mem_ids_iff.1 (hlater.ids_eq ▸ mem_ids_iff.2 ⟨n', hn'⟩)
    obtain ⟨m, hm, hbody, -⟩ := hlater.node? id n hn
    obtain rfl := Option.some.inj (hm.symm.trans hn')
    rw [hbody]
    exact h.1 id n hn hid

/-! ## One selective walk -/

/-- A settled node stays settled under inputs of which its body makes the same. -/
theorem SettledAt.of_ignores {id : NodeId} {n : Node} (h : g.SettledAt inputs shown id n)
    (htimeout : g.nodeTimeout = none) (hignores : n.body.Ignores id inputs inputs') :
    g.SettledAt inputs' shown id n := by
  obtain ⟨hending, hemitted⟩ :=
    hignores (g.visitOf inputs id (g.arguments n.params) 0) rfl htimeout
  have hsame : (g.outcomeOf inputs' id n).ending = (g.outcomeOf inputs id n).ending := hending
  have hunits : (g.outcomeOf inputs' id n).footprint.log.emitted
      = (g.outcomeOf inputs id n).footprint.log.emitted := hemitted
  have hverdict : g.verdict inputs' id n = g.verdict inputs id n := by
    rw [verdict, verdict, result_none_congr hsame, hunits]
  exact ⟨by rw [hverdict]; exact h.shows, fun hall hnot => h.pausesFit hall (hverdict ▸ hnot)⟩

theorem selects_of_mem {ids : List NodeId} {id : NodeId} (h : id ∈ ids) (g : Graph) (n : Node) :
    g.selects (some ids) id n = true := by
  simp [selects, h]

/-- A walk over what some nodes affect starts with the other nodes settled. -/
theorem settling_affected {changed : List NodeId} (hg : g.WellFormed) (hlocal : g.Local)
    (htimeout : g.nodeTimeout = none)
    (hsettled : ∀ id n, g.node? id = some n → id ∉ g.affected changed →
      g.SettledAt inputs shown id n) :
    g.Settling inputs shown (· ∈ g.affected changed) [] g.order .empty :=
  settling_order _ hg hlocal htimeout (fun _ _ hab hb => hg.affected_closed hb hab) hsettled

/-- A selective walk settles a graph under the new inputs. -/
theorem Settled.selective {changed : List NodeId} {r : Report} (h : g.Settled inputs shown)
    (hg : g.WellFormed) (hlocal : g.Local) (htimeout : g.nodeTimeout = none)
    (hignores : ∀ id n, g.node? id = some n → id ∉ changed → n.body.Ignores id inputs inputs')
    (hexecute : g.execute (some (g.affected changed)) inputs' = (some r, g')) :
    g'.WellFormed ∧ g'.Local ∧ g'.nodeTimeout = none ∧ g'.Settled inputs' (r.show shown) := by
  refine (settling_affected hg hlocal htimeout fun id n hn hid => ?_).execute
    (fun _ g n hid => selects_of_mem hid g n) hexecute
  refine (h id n hn).of_ignores htimeout (hignores id n hn fun hchanged => hid ?_)
  exact hg.subset_affected hchanged (mem_ids_iff.2 ⟨n, hn⟩)

/-- Selective walks keep a graph settled. -/
theorem Settled.selectiveWalks (h : g.Settled inputs shown) (hg : g.WellFormed)
    (hlocal : g.Local) (htimeout : g.nodeTimeout = none) (hcovers : g.Covers inputs steps)
    (hwalks : g.selectiveWalks shown steps = some (g', shown')) :
    g.Later g' ∧ g'.WellFormed ∧ g'.Settled (finalInputs inputs steps) shown' := by
  induction steps generalizing g inputs shown with
  | nil =>
    cases hwalks
    exact ⟨.refl _, hg, h⟩
  | cons step steps ih =>
    obtain ⟨changed, inputs'⟩ := step
    rw [Graph.selectiveWalks] at hwalks
    split at hwalks
    · cases hwalks
    · rename_i r g₁ hexecute
      obtain ⟨hg₁, hlocal₁, htimeout₁, hsettled₁⟩ := h.selective hg hlocal htimeout hcovers.1 hexecute
      have hlater := later_execute hexecute
      obtain ⟨hlater', hg', hsettled'⟩ := ih hsettled₁ hg₁ hlocal₁ htimeout₁
        (hcovers.2.of_later hlater) hwalks
      exact ⟨hlater.trans hlater', hg', hsettled'⟩

/-! ## Walks that come to their end -/

theorem visit_isSome_of_pausesFit (recompute : Option (List NodeId)) (inputs : InputTable)
    (id : NodeId) (hfits : ∀ n, g.node? id = some n → g.PausesFit n) (r : Report) :
    (g.visit recompute inputs id r).1.isSome = true := by
  rw [visit]
  split
  · rfl
  · rename_i n hn
    split
    · rfl
    · split
      · rfl
      · exact attempt_isSome (fun k hk hk' => hfits n hn k hk (by omega)) _ r

theorem Later.pausesFit (h : g.Later g') (hfits : ∀ id n, g.node? id = some n → g.PausesFit n) :
    ∀ id n, g'.node? id = some n → g'.PausesFit n := by
  intro id n' hn' k hk hk'
  obtain ⟨n, hn⟩ := mem_ids_iff.1 (h.ids_eq ▸ mem_ids_iff.2 ⟨n', hn'⟩)
  obtain ⟨m, hm, -, -, hretry⟩ := h.node? id n hn
  obtain rfl := Option.some.inj (hm.symm.trans hn')
  rw [Node.tries, hretry, h.defaultRetry_eq] at hk'
  rw [Node.pauseFits, hretry, h.defaultRetry_eq]
  exact hfits id n hn k hk hk'

theorem execute_isSome_of_pausesFit (recompute : Option (List NodeId)) (inputs : InputTable)
    (hfits : ∀ id n, g.node? id = some n → g.PausesFit n) :
    (g.execute recompute inputs).1.isSome = true := by
  rw [execute]
  generalize g.order = ids
  generalize Report.empty = r
  induction ids generalizing g r with
  | nil => rfl
  | cons id ids ih =>
    obtain ⟨r₁, hr₁⟩ := Option.isSome_iff_exists.1
      (visit_isSome_of_pausesFit recompute inputs id (hfits id) r)
    have hvisit : g.visit recompute inputs id r = (some r₁, (g.visit recompute inputs id r).2) :=
      Prod.ext hr₁ rfl
    rw [visitAll, hvisit]
    exact ih ((g.later_visit recompute inputs id r).pausesFit hfits) r₁

/-- If all pauses fit a duration, no walk breaks off. -/
theorem walks_isSome_of_pausesFit (inputs : InputTable) (steps : List (List NodeId × InputTable))
    (hfits : ∀ id n, g.node? id = some n → g.PausesFit n) :
    (g.walks inputs steps).isSome = true := by
  have hselective : ∀ (steps : List (List NodeId × InputTable)) (g : Graph) shown,
      (∀ id n, g.node? id = some n → g.PausesFit n) →
      (g.selectiveWalks shown steps).isSome = true := by
    intro steps
    induction steps with
    | nil => exact fun _ _ _ => rfl
    | cons step steps ih =>
      intro g shown hfits
      rw [Graph.selectiveWalks]
      have hreturns := execute_isSome_of_pausesFit (some (g.affected step.1)) step.2 hfits
      split
      · rename_i hexecute
        rw [hexecute] at hreturns
        cases hreturns
      · rename_i hexecute
        exact ih _ _ ((later_execute hexecute).pausesFit hfits)
  have hreturns := execute_isSome_of_pausesFit none inputs hfits
  rw [walks]
  split
  · rename_i hexecute
    rw [hexecute] at hreturns
    cases hreturns
  · rename_i hexecute
    exact hselective steps _ _ ((later_execute hexecute).pausesFit hfits)

/-! ## The end of a sequence -/

/-- In settled graphs with the same dependencies the same errors are on record. -/
theorem Alike.lastError_eq (h : g.Alike g') (hg : g.WellFormed) (hg' : g'.WellFormed)
    (hlocal : g.Local) (htimeout : g.nodeTimeout = none) (hsettled : g.Settled inputs shown)
    (hsettled' : g'.Settled inputs shown') {id : NodeId} {n n' : Node}
    (hn : g.node? id = some n) (hn' : g'.node? id = some n')
    (hdependencies : n'.dependencies = n.dependencies) : n'.lastError = n.lastError := by
  have hids : ∀ a ∈ g.ids, ∀ b, g.DependsOn a b → b ∈ g.ids := fun a _ b hab =>
    (hg.mem_ids_of_dependsOn hab).2
  have hagree : ∀ a ∈ g.ids, g.AgreeAt g' shown shown' a := fun a ha =>
    h.agree hg hg' hlocal htimeout hids (fun b m hm _ => hsettled b m hm) hsettled' ha
  have hdependency : ∀ d ∈ n.dependencies, TransGen g.DependsOn id d := fun d hd =>
    .single (by rwa [DependsOn, dependenciesOf_eq hn])
  have hmem : ∀ {d}, TransGen g.DependsOn id d → d ∈ g.ids := fun hd =>
    (hg.mem_ids_of_transGen hd).2
  have hverdict : g'.verdict inputs id n' = g.verdict inputs id n := by
    cases hfind : n.dependencies.find? g.hasFailed with
    | some d =>
      have hfind' : n'.dependencies.find? g'.hasFailed = some d := by
        rw [hdependencies, ← hfind]
        exact List.find?_congr fun c hc =>
          hasFailed_eq_of_agreeAt h (hagree c (hmem (hdependency c hc)))
      rw [verdict_of_failed inputs id hfind, verdict_of_failed inputs id hfind']
    | none =>
      refine h.verdict_eq inputs hg hlocal htimeout hn hn' fun d hd =>
        h.near_of_agreeAt hg (hagree d (hmem hd)) hd (fun m hm => hsettled d m hm) ?_
      exact not_hasFailed_of_transGen hids (fun b m hm _ => hsettled b m hm) hn
        (fun c hc => hmem (hdependency c hc)) (find?_hasFailed_eq_none.1 hfind) hd
  have hshows := (hsettled id n hn).shows
  have hshows' := (hsettled' id n' hn').shows
  rw [hverdict] at hshows'
  cases hv : g.verdict inputs id n with
  | ok w =>
    rw [hv] at hshows hshows'
    exact hshows'.2.1.trans hshows.2.1.symm
  | error e =>
    rw [hv] at hshows hshows'
    exact hshows'.2.1.trans hshows.2.1.symm

/-- If bodies read only declared dependencies, walks make no new edges. -/
theorem Later.dependencies_eq (h : g.Later g') (hg : g.WellFormed) (hg' : g'.WellFormed)
    (htimeout : g.nodeTimeout = none)
    (hlocal : ∀ id n, g.node? id = some n → n.body.LocalTo id (· ∈ n.dependencies)) (id : NodeId) :
    g'.dependenciesOf id = g.dependenciesOf id := by
  refine (hg'.dependencies_sorted id).eq_of_mem_iff (hg.dependencies_sorted id) fun d => ?_
  refine ⟨fun hd => ?_, h.dependsOn id d⟩
  rcases h.exists_read id d hd with hd | ⟨n, v, hn, hv, hlimit, hread⟩
  · exact hd
  · rw [dependenciesOf_eq hn]
    exact (hlocal id n hn).near_of_mem_reads v hv (hlimit.trans htimeout) d hread

/-- **A walk over all nodes would leave a settled graph as it is**: it would come to its end, keep
the order, and show the same. -/
theorem Settled.exists_walk {g₁ : Graph} {shown₁ : NodeId → List OutputUnit}
    (hsettled₁ : g₁.Settled inputs shown₁) (hlater : g.Later g₁) (hg : g.WellFormed)
    (hlocal : g.Local) (htimeout : g.nodeTimeout = none) (hg₁ : g₁.WellFormed) :
    ∃ report g₂, g.execute none inputs = (some report, g₂) ∧ g₂.ids = g.ids ∧
      g₂.order = g₁.order ∧ ∀ id ∈ g.ids, report.show (fun _ => []) id = shown₁ id := by
  have halike₁ := Alike.of_later hlater hlocal htimeout
  obtain ⟨report, hreport⟩ := Option.isSome_iff_exists.1
    (execute_isSome halike₁ hg hg₁ hlocal htimeout hsettled₁)
  have hexecute : g.execute none inputs = (some report, (g.execute none inputs).2) :=
    Prod.ext hreport rfl
  generalize (g.execute none inputs).2 = g₂ at hexecute
  obtain ⟨hg₂, hlocal₂, htimeout₂, hsettled₂⟩ :=
    execute_all_settled hg hlocal htimeout (fun _ => []) hexecute
  have hlater₂ := later_execute hexecute
  have halike : g₂.Alike g₁ := (Alike.of_later hlater₂ hlocal htimeout).symm.trans halike₁
  refine ⟨report, g₂, hexecute, hlater₂.ids_eq, (halike.order_eq hg₂ hg₁).symm, fun id hid => ?_⟩
  exact (halike.shown_eq hg₂ hg₁ hlocal₂ htimeout₂ hsettled₂ hsettled₁ (hlater₂.ids_eq ▸ hid)).symm

/-- **Selective walks leave what one walk over all nodes would leave.**  Let the bodies of a graph
look at nothing but their arguments, the inputs and declared reads, and let every table of inputs
differ from the one before only in what the named nodes make of it.  If a walk over all nodes and
selective walks over what the named nodes affect come to their end, so does one walk over all nodes
under the last table, and it leaves every node with the same status and error, and completed nodes
with the same values and units.  No walk breaks off if all pauses between attempts fit a duration. -/
theorem selective_walks_equal_full_walk (hg : Reachable g) (htimeout : g.nodeTimeout = none)
    (hlocal : ∀ id n, g.node? id = some n → n.body.LocalTo id (· ∈ n.dependencies))
    (hcovers : g.Covers inputs steps) :
    ((∀ id n, g.node? id = some n → g.PausesFit n) → (g.walks inputs steps).isSome = true) ∧
      ∀ g₁ shown₁, g.walks inputs steps = some (g₁, shown₁) →
        ∃ report g₂, g.execute none (finalInputs inputs steps) = (some report, g₂) ∧
          (∀ id, (g₁.node? id).map (fun n => (n.status, n.lastError))
            = (g₂.node? id).map fun n => (n.status, n.lastError)) ∧
          ∀ id n, g₁.node? id = some n → n.status = .completed →
            g₁.value? id = g₂.value? id ∧ shown₁ id = report.show (fun _ => []) id := by
  have hwell := hg.wellFormed
  have hnear : g.Local := fun id n hn => (hlocal id n hn).mono fun d hd =>
    .single (by rwa [DependsOn, dependenciesOf_eq hn])
  refine ⟨walks_isSome_of_pausesFit inputs steps, fun g₁ shown₁ hwalks => ?_⟩
  -- The graph after the selective walks is settled.
  obtain ⟨hlater₁, hg₁, hsettled₁⟩ : g.Later g₁ ∧ g₁.WellFormed ∧
      g₁.Settled (finalInputs inputs steps) shown₁ := by
    rw [walks] at hwalks
    split at hwalks
    · cases hwalks
    · rename_i r g₀ hexecute
      obtain ⟨hg₀, hlocal₀, htimeout₀, hsettled₀⟩ :=
        execute_all_settled hwell hnear htimeout (fun _ => []) hexecute
      have hlater := later_execute hexecute
      obtain ⟨hlater', hg₁, hsettled₁⟩ :=
        hsettled₀.selectiveWalks hg₀ hlocal₀ htimeout₀ (hcovers.of_later hlater) hwalks
      exact ⟨hlater.trans hlater', hg₁, hsettled₁⟩
  have halike₁ := Alike.of_later hlater₁ hnear htimeout
  -- So is the graph after one walk over all nodes, which comes to its end for that reason.
  obtain ⟨report, hreport⟩ := Option.isSome_iff_exists.1
    (execute_isSome halike₁ hwell hg₁ hnear htimeout hsettled₁)
  have hexecute : g.execute none (finalInputs inputs steps)
      = (some report, (g.execute none (finalInputs inputs steps)).2) := Prod.ext hreport rfl
  generalize (g.execute none (finalInputs inputs steps)).2 = g₂ at hexecute
  obtain ⟨hg₂, hlocal₂, htimeout₂, hsettled₂⟩ :=
    execute_all_settled hwell hnear htimeout (fun _ => []) hexecute
  have hlater₂ := later_execute hexecute
  have halike : g₂.Alike g₁ := (Alike.of_later hlater₂ hnear htimeout).symm.trans halike₁
  have hagree : ∀ a ∈ g₂.ids, g₂.AgreeAt g₁ (report.show fun _ => []) shown₁ a := fun a ha =>
    halike.agree hg₂ hg₁ hlocal₂ htimeout₂ (fun b _ c hbc => (hg₂.mem_ids_of_dependsOn hbc).2)
      (fun b m hm _ => hsettled₂ b m hm) hsettled₁ ha
  refine ⟨report, g₂, hexecute, fun id => ?_, fun id n₁ hn₁ hcompleted => ?_⟩
  · cases hn₂ : g₂.node? id with
    | none =>
      have hn₁ : g₁.node? id = none :=
        node?_eq_none_iff.2 (halike.ids_eq ▸ node?_eq_none_iff.1 hn₂)
      rw [hn₁]
    | some n₂ =>
      obtain ⟨n₁, hn₁⟩ := halike.exists_node? hn₂
      have hstatus := (hagree id (mem_ids_iff.2 ⟨n₂, hn₂⟩) n₂ n₁ hn₂ hn₁).1
      have hdependencies : n₁.dependencies = n₂.dependencies := by
        rw [← dependenciesOf_eq hn₁, ← dependenciesOf_eq hn₂,
          hlater₁.dependencies_eq hwell hg₁ htimeout hlocal,
          hlater₂.dependencies_eq hwell hg₂ htimeout hlocal]
      rw [hn₁, Option.map_some, Option.map_some, hstatus,
        halike.lastError_eq hg₂ hg₁ hlocal₂ htimeout₂ hsettled₂ hsettled₁ hn₂ hn₁ hdependencies]
  · obtain ⟨n₂, hn₂⟩ := halike.symm.exists_node? hn₁
    have := hagree id (mem_ids_iff.2 ⟨n₂, hn₂⟩) n₂ n₁ hn₂ hn₁
    exact this.2 (this.1 ▸ hcompleted)

end Graph

/-! ## Two nodes -/

/-- A body that computes its end from arguments and inputs. -/
def Body.computing (f : List Value → InputTable → Ending NodeError Value) : Body := fun v =>
  ⟨f v.args v.inputs, .start v⟩

theorem Body.localTo_computing (f : List Value → InputTable → Ending NodeError Value)
    (id : NodeId) (near : NodeId → Prop) : (Body.computing f).LocalTo id near where
  outcome_eq v w _ _ _ _ hargs hinputs _ := by
    refine ⟨?_, rfl⟩
    rw [computing, computing, hargs, hinputs]
  near_of_mem_reads v _ _ d hd := absurd hd List.not_mem_nil

namespace Graph

/-- The value of an input. -/
def inputValue (inputs : InputTable) : Ending NodeError Value :=
  .value ((Table.get? ⟨"unit"⟩ inputs).getD .null)

/-- Fail unless the only argument is a value. -/
def present : List Value → Ending NodeError Value
  | [.null] => .error (.custom "no value")
  | _ => .value (.bool true)

/-- A node with the value of an input, and one that fails unless it is given a value. -/
def inputAndUse : List (NodeId × List NodeId × Body) := [
  (⟨"input"⟩, [], .computing fun _ inputs => inputValue inputs),
  (⟨"use"⟩, [⟨"input"⟩], .computing fun args _ => present args)]

/-- The theorem applies to a failed node that gets its value later. -/
theorem selective_walks_equal_full_walk_of_two :
    ∃ g g₁ shown₁ report g₂, (empty none none).registerAll inputAndUse = .ok g ∧
      g.walks [] [([⟨"input"⟩], [(⟨"unit"⟩, .bool true)])] = some (g₁, shown₁) ∧
      g.execute none [(⟨"unit"⟩, .bool true)] = (some report, g₂) ∧
      ∀ id, (g₁.node? id).map (fun n => (n.status, n.lastError))
        = (g₂.node? id).map fun n => (n.status, n.lastError) := by
  obtain ⟨g, input, use, hreg, hnodes, hf, hk, hinput, huse, hretry, htimeout⟩ :
      ∃ (g : Graph) (input use : Node), (empty none none).registerAll inputAndUse = .ok g ∧
        g.nodes = [(⟨"input"⟩, input), (⟨"use"⟩, use)] ∧
        (input.body = .computing fun _ inputs => inputValue inputs) ∧
        (use.body = .computing fun args _ => present args) ∧
        input.retry = none ∧ use.retry = none ∧ g.defaultRetry = none ∧ g.nodeTimeout = none :=
    ⟨_, _, _, rfl, rfl, rfl, rfl, rfl, rfl, rfl, rfl⟩
  have hg : Reachable g := Reachable.registerAll (.empty none none) hreg
  have hcases : ∀ id n, g.node? id = some n →
      id = ⟨"input"⟩ ∧ n = input ∨ id = ⟨"use"⟩ ∧ n = use := by
    intro id n hn
    rw [node?, hnodes, Table.get?] at hn
    split at hn
    · rename_i hid
      exact Or.inl ⟨hid.symm, (Option.some.inj hn).symm⟩
    · rw [Table.get?] at hn
      split at hn
      · rename_i hid
        exact Or.inr ⟨hid.symm, (Option.some.inj hn).symm⟩
      · cases hn
  have hlocal : ∀ id n, g.node? id = some n → n.body.LocalTo id (· ∈ n.dependencies) := by
    intro id n hn
    rcases hcases id n hn with ⟨-, rfl⟩ | ⟨-, rfl⟩
    · rw [hf]
      exact Body.localTo_computing _ id _
    · rw [hk]
      exact Body.localTo_computing _ id _
  have hfits : ∀ id n, g.node? id = some n → g.PausesFit n := by
    intro id n hn j hj hj'
    rcases hcases id n hn with ⟨-, rfl⟩ | ⟨-, rfl⟩
    · rw [Node.pauseFits, hinput, hretry]
      rfl
    · rw [Node.pauseFits, huse, hretry]
      rfl
  have hcovers : g.Covers [] [([⟨"input"⟩], [(⟨"unit"⟩, .bool true)])] := by
    refine ⟨fun id n hn hid => ?_, trivial⟩
    rcases hcases id n hn with ⟨rfl, -⟩ | ⟨-, rfl⟩
    · exact absurd (List.mem_singleton_self _) hid
    · rw [hk]
      exact fun v _ _ => ⟨rfl, rfl⟩
  obtain ⟨hreturns, hwalks⟩ := selective_walks_equal_full_walk hg htimeout hlocal hcovers
  obtain ⟨⟨g₁, shown₁⟩, hrun⟩ := Option.isSome_iff_exists.1 (hreturns hfits)
  obtain ⟨report, g₂, hexecute, hsame, -⟩ := hwalks g₁ shown₁ hrun
  exact ⟨g, g₁, shown₁, report, g₂, hreg, hrun, hexecute, hsame⟩

end Graph

end ReactiveScript

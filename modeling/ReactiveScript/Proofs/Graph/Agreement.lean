import ReactiveScript.Proofs.Graph.Settled

/-!
# Settled graphs agree

Two graphs with the same nodes, which do the same and depend on the same through others, agree under
the same inputs once they are settled: on what has completed, on its values and on its units
(`Alike.agree`).  So whatever a graph has been through, a walk over all of its nodes would leave it
as it is, and would come to its end (`execute_isSome`).
-/

set_option autoImplicit false

namespace ReactiveScript

namespace Graph

open Relation

variable {g g' : Graph} {inputs : InputTable} {shown shown' : NodeId → List OutputUnit}

/-! ## Walks that come to their end -/

/-- A walk starts with those nodes settled that it is not due to run. -/
theorem settling_order (due : NodeId → Prop) (hg : g.WellFormed) (hlocal : g.Local)
    (htimeout : g.nodeTimeout = none) (hclosed : ∀ a b, g.DependsOn a b → due b → due a)
    (hsettled : ∀ id n, g.node? id = some n → ¬ due id → g.SettledAt inputs shown id n) :
    g.Settling inputs shown due [] g.order .empty :=
  ⟨hg, hlocal, htimeout, hg.lists_order, fun _ ha => absurd ha List.not_mem_nil, hclosed,
    fun id n hn hid => hsettled id n hn (hid.resolve_left List.not_mem_nil),
    fun _ hid => absurd hid List.not_mem_nil⟩

/-- **After a walk to its end all nodes are settled**, provided that those which it is not due to run
were, and that everything that depends on a node that is due is due. -/
theorem Settling.execute {recompute : Option (List NodeId)} {due : NodeId → Prop} {r : Report}
    (h : g.Settling inputs shown due [] g.order .empty)
    (hdue : ∀ id g n, due id → selects g recompute id n = true)
    (hexecute : g.execute recompute inputs = (some r, g')) :
    g'.WellFormed ∧ g'.Local ∧ g'.nodeTimeout = none ∧ g'.Settled inputs (r.show shown) := by
  have hend := h.visitAll hdue hexecute
  refine ⟨hend.wellFormed, hend.isLocal, hend.timeout, fun id n hn => ?_⟩
  refine hend.settled id n hn (Or.inl ?_)
  by_contra hid
  exact List.not_mem_nil (hend.lists.mem_iff.2 ⟨mem_ids_iff.2 ⟨n, hn⟩, hid⟩)

/-- A walk over all nodes starts with none of them settled. -/
theorem settling_all (hg : g.WellFormed) (hlocal : g.Local) (htimeout : g.nodeTimeout = none)
    (shown : NodeId → List OutputUnit) :
    g.Settling inputs shown (fun _ => True) [] g.order .empty :=
  settling_order _ hg hlocal htimeout (fun _ _ _ _ => trivial) fun _ _ _ h => absurd trivial h

/-- A walk over all nodes settles them, whatever has been before. -/
theorem execute_all_settled {r : Report} (hg : g.WellFormed) (hlocal : g.Local)
    (htimeout : g.nodeTimeout = none) (shown : NodeId → List OutputUnit)
    (hexecute : g.execute none inputs = (some r, g')) :
    g'.WellFormed ∧ g'.Local ∧ g'.nodeTimeout = none ∧ g'.Settled inputs (r.show shown) :=
  (settling_all hg hlocal htimeout shown).execute (fun _ _ _ _ => rfl) hexecute

/-! ## Agreement -/

/-- The same nodes, which do the same and depend on the same through others. -/
structure Alike (g g' : Graph) : Prop where
  /-- They have the same nodes. -/
  ids_eq : g'.ids = g.ids
  /-- Nodes do the same. -/
  node? : ∀ id n n', g.node? id = some n → g'.node? id = some n' →
    n'.body = n.body ∧ n'.params = n.params ∧ n'.retry = n.retry
  /-- Nodes depend on the same through others. -/
  transGen_iff : ∀ a b, TransGen g'.DependsOn a b ↔ TransGen g.DependsOn a b
  /-- The settings are the same. -/
  defaultRetry_eq : g'.defaultRetry = g.defaultRetry
  /-- The settings are the same. -/
  nodeTimeout_eq : g'.nodeTimeout = g.nodeTimeout

namespace Alike

theorem symm (h : g.Alike g') : g'.Alike g where
  ids_eq := h.ids_eq.symm
  node? id n n' hn hn' := by
    obtain ⟨hbody, hparams, hretry⟩ := h.node? id n' n hn' hn
    exact ⟨hbody.symm, hparams.symm, hretry.symm⟩
  transGen_iff a b := (h.transGen_iff a b).symm
  defaultRetry_eq := h.defaultRetry_eq.symm
  nodeTimeout_eq := h.nodeTimeout_eq.symm

theorem exists_node? (h : g.Alike g') {id : NodeId} {n : Node} (hn : g.node? id = some n) :
    ∃ n', g'.node? id = some n' :=
  mem_ids_iff.1 (h.ids_eq ▸ mem_ids_iff.2 ⟨n, hn⟩)

theorem trans {g'' : Graph} (h : g.Alike g') (h' : g'.Alike g'') : g.Alike g'' where
  ids_eq := h'.ids_eq.trans h.ids_eq
  node? id n n'' hn hn'' := by
    obtain ⟨n', hn'⟩ := h.exists_node? hn
    obtain ⟨hbody, hparams, hretry⟩ := h.node? id n n' hn hn'
    obtain ⟨hbody', hparams', hretry'⟩ := h'.node? id n' n'' hn' hn''
    exact ⟨hbody'.trans hbody, hparams'.trans hparams, hretry'.trans hretry⟩
  transGen_iff a b := (h'.transGen_iff a b).trans (h.transGen_iff a b)
  defaultRetry_eq := h'.defaultRetry_eq.trans h.defaultRetry_eq
  nodeTimeout_eq := h'.nodeTimeout_eq.trans h.nodeTimeout_eq

/-- Local bodies read what their nodes depend on anyway. -/
theorem of_later (h : g.Later g') (hlocal : g.Local) (htimeout : g.nodeTimeout = none) :
    g.Alike g' where
  ids_eq := h.ids_eq
  node? id n n' hn hn' := by
    obtain ⟨m, hm, hsame⟩ := h.node? id n hn
    obtain rfl := Option.some.inj (hm.symm.trans hn')
    exact hsame
  transGen_iff a b := by
    constructor
    · refine fun hab => TransGen.closed (fun a b hab => ?_) a b hab
      rcases h.exists_read a b hab with hab | ⟨n, v, hn, hv, hlimit, hb⟩
      · exact .single hab
      · exact (hlocal a n hn).near_of_mem_reads v hv (hlimit.trans htimeout) b hb
    · exact fun hab => TransGen.mono (fun a b => h.dependsOn a b) a b hab
  defaultRetry_eq := h.defaultRetry_eq
  nodeTimeout_eq := h.nodeTimeout_eq

/-- Once what a node depends on has been listed, it is ready in both. -/
theorem ready (h : g.Alike g') {done : List NodeId} {id : NodeId}
    (hclosed : ∀ a ∈ done, ∀ b, TransGen g.DependsOn a b → b ∈ done)
    (hready : g.Ready done id) : g'.Ready done id := by
  refine ⟨h.ids_eq ▸ hready.mem_ids, hready.not_mem, fun d hd => ?_⟩
  obtain ⟨c, hc, hcd⟩ := TransGen.head'_iff.1 ((h.transGen_iff id d).1 (.single hd))
  have hc := hready.dependencies_subset hc
  rcases reflTransGen_iff_eq_or_transGen.1 hcd with rfl | hcd
  · exact hc
  · exact hclosed c hc d hcd

/-- The nodes are executed in the same order. -/
theorem order_eq (h : g.Alike g') (hg : g.WellFormed) (hg' : g'.WellFormed) :
    g'.order = g.order := by
  refine (hg.lists_order.unique hg'.lists_order (fun pre id hpre => ?_)
    fun id => by rw [h.ids_eq]).symm
  obtain ⟨post, hpost⟩ := hpre
  have hclosed : ∀ a ∈ pre, ∀ b, TransGen g.DependsOn a b → b ∈ pre := by
    intro a ha b hab
    have hlists := hg.lists_order
    rw [← hpost] at hlists
    exact hlists.mem_of_dependsOn ha hab
  rw [List.nil_append]
  constructor
  · exact h.ready hclosed
  · exact h.symm.ready fun a ha b hab => hclosed a ha b ((h.transGen_iff a b).1 hab)

end Alike

theorem SettledAt.status_eq {id : NodeId} {n : Node} (h : g.SettledAt inputs shown id n) :
    n.status = .completed ∨ n.status = .error := by
  have hshows := h.shows
  cases hv : g.verdict inputs id n with
  | ok w =>
    rw [hv] at hshows
    exact Or.inl hshows.1
  | error e =>
    rw [hv] at hshows
    exact Or.inr hshows.1

/-- What two graphs are compared by at a node: what has become of it and, if it has completed, its
value and its units. -/
def AgreeAt (g g' : Graph) (shown shown' : NodeId → List OutputUnit) (id : NodeId) : Prop :=
  ∀ n n', g.node? id = some n → g'.node? id = some n' → n'.status = n.status ∧
    (n.status = .completed → g'.value? id = g.value? id ∧ shown' id = shown id)

/-- If all that a node depends on agrees, and none of its dependencies has failed, the verdict on it
is the same. -/
theorem Alike.verdict_eq (inputs : InputTable) (h : g.Alike g') (hg : g.WellFormed) (hlocal : g.Local)
    (htimeout : g.nodeTimeout = none) {id : NodeId} {n n' : Node}
    (hn : g.node? id = some n) (hn' : g'.node? id = some n')
    (hnear : ∀ d, TransGen g.DependsOn id d →
      g.hasFailed d = false ∧ g'.hasFailed d = false ∧ g'.value? d = g.value? d) :
    g'.verdict inputs id n' = g.verdict inputs id n := by
  obtain ⟨hbody, hparams, -⟩ := h.node? id n n' hn hn'
  have hdependency : ∀ d ∈ n.dependencies, TransGen g.DependsOn id d := fun d hd =>
    .single (by rwa [DependsOn, dependenciesOf_eq hn])
  have hdependency' : ∀ d ∈ n'.dependencies, TransGen g.DependsOn id d := fun d hd =>
    (h.transGen_iff id d).1 (.single (by rwa [DependsOn, dependenciesOf_eq hn']))
  refine verdict_congr (hlocal id n hn) htimeout (h.nodeTimeout_eq.trans htimeout) hbody hparams ?_
    (fun p hp => (hnear p (hdependency p ?_)).2.2) fun d hd => (hnear d hd).2.2
  · rw [find?_hasFailed_eq_none.2 fun d hd => (hnear d (hdependency d hd)).1,
      find?_hasFailed_eq_none.2 fun d hd => (hnear d (hdependency' d hd)).2.1]
  · rw [← dependenciesOf_eq hn]
    exact hg.params_subset id (by rwa [paramsOf_eq hn])

theorem hasFailed_eq_of_agreeAt (h : g.Alike g') {id : NodeId}
    (hagree : g.AgreeAt g' shown shown' id) : g'.hasFailed id = g.hasFailed id := by
  cases hn : g.node? id with
  | none =>
    have hid : g'.node? id = none := node?_eq_none_iff.2 (h.ids_eq ▸ node?_eq_none_iff.1 hn)
    rw [hasFailed, hasFailed, hn, hid]
  | some n =>
    obtain ⟨n', hn'⟩ := h.exists_node? hn
    rw [hasFailed_eq hn, hasFailed_eq hn', (hagree n n' hn hn').1]

theorem value?_eq_of_agreeAt (h : g.Alike g') {id : NodeId} {n : Node}
    (hn : g.node? id = some n) (hagree : g.AgreeAt g' shown shown' id)
    (hsettled : g.SettledAt inputs shown id n) (hfailed : g.hasFailed id = false) :
    g'.value? id = g.value? id := by
  obtain ⟨n', hn'⟩ := h.exists_node? hn
  refine ((hagree n n' hn hn').2 ?_).1
  refine hsettled.status_eq.resolve_right fun herror => ?_
  rw [hasFailed_eq hn, herror] at hfailed
  cases hfailed

theorem Alike.near_of_agreeAt (h : g.Alike g') (hg : g.WellFormed) {id d : NodeId}
    (hagree : g.AgreeAt g' shown shown' d) (hd : TransGen g.DependsOn id d)
    (hsettled : ∀ m, g.node? d = some m → g.SettledAt inputs shown d m)
    (hfailed : g.hasFailed d = false) :
    g.hasFailed d = false ∧ g'.hasFailed d = false ∧ g'.value? d = g.value? d := by
  obtain ⟨m, hm⟩ := mem_ids_iff.1 (hg.mem_ids_of_transGen hd).2
  exact ⟨hfailed, (hasFailed_eq_of_agreeAt h hagree).trans hfailed,
    value?_eq_of_agreeAt h hm hagree (hsettled m hm) hfailed⟩

/-- **Settled graphs agree**, and what is settled of one agrees with the other. -/
theorem Alike.agree (h : g.Alike g') (hg : g.WellFormed) (hg' : g'.WellFormed) (hlocal : g.Local)
    (htimeout : g.nodeTimeout = none) {done : List NodeId}
    (hclosed : ∀ a ∈ done, ∀ b, g.DependsOn a b → b ∈ done)
    (hsettled : ∀ a n, g.node? a = some n → a ∈ done → g.SettledAt inputs shown a n)
    (hsettled' : g'.Settled inputs shown') {a : NodeId} (ha : a ∈ done) :
    g.AgreeAt g' shown shown' a := by
  have hwf : WellFounded fun b a => TransGen g.DependsOn a b :=
    Subrelation.wf (fun {_ _} hba => transGen_swap.2 hba) hg.wellFounded.transGen
  induction a using hwf.induction with
  | _ a ih =>
    intro n n' hn hn'
    have hnear : ∀ {d}, TransGen g.DependsOn a d → d ∈ done := by
      intro d hd
      induction hd with
      | single hd => exact hclosed a ha _ hd
      | tail _ hd ihd => exact hclosed _ ihd _ hd
    have hagree : ∀ {d}, TransGen g.DependsOn a d → g.AgreeAt g' shown shown' d := fun hd =>
      ih _ hd (hnear hd)
    have hdependency : ∀ d ∈ n.dependencies, TransGen g.DependsOn a d := fun d hd =>
      .single (by rwa [DependsOn, dependenciesOf_eq hn])
    by_cases hall : ∀ d ∈ n.dependencies, g.hasFailed d = false
    · -- Nothing that the node depends on has failed in either graph.
      have hfailed : ∀ {d}, TransGen g.DependsOn a d → g.hasFailed d = false := fun hd =>
        not_hasFailed_of_transGen hclosed hsettled hn (fun c hc => hnear (hdependency c hc)) hall hd
      have hverdict := h.verdict_eq inputs hg hlocal htimeout hn hn' fun d hd =>
        h.near_of_agreeAt hg (hagree hd) hd (fun m hm => hsettled d m hm (hnear hd)) (hfailed hd)
      have hshows := (hsettled a n hn ha).shows
      have hshows' := (hsettled' a n' hn').shows
      rw [hverdict] at hshows'
      cases hv : g.verdict inputs a n with
      | ok w =>
        rw [hv] at hshows hshows'
        exact ⟨hshows'.1.trans hshows.1.symm, fun _ => ⟨hshows'.2.2.1.trans hshows.2.2.1.symm,
          hshows'.2.2.2.trans hshows.2.2.2.symm⟩⟩
      | error e =>
        rw [hv] at hshows hshows'
        refine ⟨hshows'.1.trans hshows.1.symm, fun hcompleted => ?_⟩
        rw [hshows.1] at hcompleted
        cases hcompleted
    · -- The same dependency has failed in the other graph, where it blocks the node as well.
      simp only [not_forall, Bool.not_eq_false] at hall
      obtain ⟨d, hd, hfailed⟩ := hall
      have herror := (hsettled a n hn ha).hasFailed hn hd hfailed
      have herror' : g'.hasFailed a = true := by
        have hids : ∀ b ∈ g'.ids, ∀ c, g'.DependsOn b c → c ∈ g'.ids := fun b _ c hbc =>
          (hg'.mem_ids_of_dependsOn hbc).2
        refine hasFailed_of_transGen hids (fun b m hm _ => hsettled' b m hm)
          ((h.transGen_iff a d).2 (hdependency d hd)) (mem_ids_iff.2 ⟨n', hn'⟩) ?_
        rw [hasFailed_eq_of_agreeAt h (hagree (hdependency d hd))]
        exact hfailed
      rw [hasFailed_eq hn, beq_iff_eq] at herror
      rw [hasFailed_eq hn', beq_iff_eq] at herror'
      refine ⟨herror'.trans herror.symm, fun hcompleted => ?_⟩
      rw [herror] at hcompleted
      cases hcompleted

/-- Settled graphs show the same: nodes that failed show nothing. -/
theorem Alike.shown_eq (h : g.Alike g') (hg : g.WellFormed) (hg' : g'.WellFormed) (hlocal : g.Local)
    (htimeout : g.nodeTimeout = none) (hsettled : g.Settled inputs shown)
    (hsettled' : g'.Settled inputs shown') {id : NodeId} (hid : id ∈ g.ids) :
    shown' id = shown id := by
  obtain ⟨n, hn⟩ := mem_ids_iff.1 hid
  obtain ⟨n', hn'⟩ := h.exists_node? hn
  obtain ⟨hstatus, hcompleted⟩ := h.agree hg hg' hlocal htimeout
    (fun a _ b hab => (hg.mem_ids_of_dependsOn hab).2) (fun a m hm _ => hsettled a m hm) hsettled' hid
    n n' hn hn'
  have hnothing : ∀ {g : Graph} {shown : NodeId → List OutputUnit} {n : Node},
      g.SettledAt inputs shown id n → n.status = .error → shown id = [] := by
    intro g shown n hsettled herror
    have hshows := hsettled.shows
    cases hv : g.verdict inputs id n with
    | ok w =>
      rw [hv] at hshows
      cases hshows.1.symm.trans herror
    | error e =>
      rw [hv] at hshows
      exact hshows.2.2
  rcases (hsettled id n hn).status_eq with hstatus' | hstatus'
  · exact (hcompleted hstatus').2
  · rw [hnothing (hsettled id n hn) hstatus', hnothing (hsettled' id n' hn') (hstatus.trans hstatus')]

/-! ## Known values -/

/-- **Settled nodes have come to the values that their bodies come to**: if there is a value for
every node that its body comes to, once the nodes that it depends on have come to theirs, then no
node has failed, and each has come to its value. -/
theorem Settled.completed (hsettled : g.Settled inputs shown) (hg : g.WellFormed)
    (htimeout : g.nodeTimeout = none) {val : NodeId → Value} {units : NodeId → List OutputUnit}
    (hbody : ∀ id n, g.node? id = some n → ∀ v : Visit, v.inputs = inputs → v.limit = none →
      v.args = n.params.map val →
      (∀ j, TransGen g.DependsOn id j → Table.get? j v.values = some (val j)) →
      ∃ f, n.body v = ⟨.value (val id), f⟩ ∧ f.log.emitted.toList = units id)
    {id : NodeId} {n : Node} (hn : g.node? id = some n) :
    n.status = .completed ∧ g.value? id = some (val id) ∧ shown id = units id := by
  have hwf : WellFounded fun b a => TransGen g.DependsOn a b :=
    Subrelation.wf (fun {_ _} hba => transGen_swap.2 hba) hg.wellFounded.transGen
  induction id using hwf.induction generalizing n with
  | _ id ih =>
    have hnear : ∀ j, TransGen g.DependsOn id j →
        g.hasFailed j = false ∧ g.value? j = some (val j) := by
      intro j hj
      obtain ⟨m, hm⟩ := mem_ids_iff.1 (hg.mem_ids_of_transGen hj).2
      obtain ⟨hstatus, hvalue, -⟩ := ih j hj hm
      exact ⟨by rw [hasFailed_eq hm, hstatus]; rfl, hvalue⟩
    have hdependency : ∀ d ∈ n.dependencies, TransGen g.DependsOn id d := fun d hd =>
      .single (by rwa [DependsOn, dependenciesOf_eq hn])
    have hargs : g.arguments n.params = n.params.map val := by
      refine List.map_congr_left fun p hp => ?_
      have hp : p ∈ n.dependencies := by
        rw [← dependenciesOf_eq hn]
        exact hg.params_subset id (by rwa [paramsOf_eq hn])
      rw [(hnear p (hdependency p hp)).2]
      rfl
    obtain ⟨f, hf, hunits⟩ := hbody id n hn (g.visitOf inputs id (g.arguments n.params) 0) rfl
      htimeout hargs fun j hj => (hnear j hj).2
    have hverdict : g.verdict inputs id n = .ok (val id, units id) := by
      rw [verdict_of_not_failed inputs id fun d hd => (hnear d (hdependency d hd)).1, outcomeOf, hf,
        ← hunits]
      rfl
    have hshows := (hsettled id n hn).shows
    rw [hverdict] at hshows
    exact ⟨hshows.1, hshows.2.2⟩

/-! ## The next walk comes to its end -/

/-- A turn comes to its end if the pauses fit in case the body of the node fails. -/
theorem visit_isSome (recompute : Option (List NodeId)) (inputs : InputTable) {id : NodeId}
    {n : Node} (hlocal : n.body.LocalTo id (TransGen g.DependsOn id)) (htimeout : g.nodeTimeout = none)
    (hn : g.node? id = some n)
    (hfits : (∀ d ∈ n.dependencies, g.hasFailed d = false) →
      (∀ w, g.verdict inputs id n ≠ .ok w) → g.PausesFit n) (r : Report) :
    (g.visit recompute inputs id r).1.isSome = true := by
  have hturn := visit_turn g recompute inputs id r
  generalize g.visitCalls recompute inputs id = calls at hturn
  generalize ho : (g.visit recompute inputs id r).1 = o at *
  generalize (g.visit recompute inputs id r).2 = g' at *
  cases hturn with
  | skipped _ => rfl
  | blocked _ _ _ => rfl
  | @ran m _ _ _ hm _ hall hcalls hrun hattempted =>
    obtain rfl := Option.some.inj (hn.symm.trans hm)
    have hverdict := verdict_of_not_failed inputs id hall
    have ho := congrArg Prod.fst hrun
    simp only at ho
    cases hresult : (g.outcomeOf inputs id n).result none with
    | error e =>
      rw [hresult] at hverdict
      have hpauses := hfits hall fun w hw => by cases hverdict.symm.trans hw
      rw [ho]
      exact attempt_isSome (fun k hk hk' => hpauses k hk (by omega)) _ r
    | ok v =>
      cases hattempted with
      | completed _ _ _ _ _ => rfl
      | failed _ _ _ _ _ _ => rfl
      | crashed _ hfailures =>
        -- The first attempt would have completed.
        have hne : calls ≠ [] := by
          rw [hcalls]
          exact attemptCalls_ne_nil (n.tries_ne_zero g.defaultRetry)
        obtain ⟨c, hc⟩ := List.exists_mem_of_ne_nil _ hne
        obtain ⟨⟨call, hvisit⟩, houtcome⟩ : (∃ call, c.visit =
            (g.update id Node.begin).visitOf inputs id (g.arguments n.params) call) ∧
            c.outcome = n.body c.visit := by
          rw [hcalls] at hc
          exact exists_visitOf_of_mem_attemptCalls hc
        refine absurd ?_ (hfailures c hc v)
        rw [Call.result, houtcome, hvisit, ← hresult]
        exact (result_visitOf inputs hlocal htimeout call).1

/-- A walk comes to the next turn, and to its end, if there is a settled graph that is alike. -/
theorem Settling.visitAll_isSome {recompute : Option (List NodeId)} {due : NodeId → Prop}
    {done rest : List NodeId} {r : Report} (h : g.Settling inputs shown due done rest r)
    (hdue : ∀ id g n, due id → selects g recompute id n = true) (halike : g.Alike g')
    (hg' : g'.WellFormed) (hsettled' : g'.Settled inputs shown') :
    (Graph.visitAll recompute inputs rest g r).1.isSome = true := by
  induction rest generalizing g done r with
  | nil => rfl
  | cons id rest ih =>
    obtain ⟨n, hn⟩ := mem_ids_iff.1 h.mem_ids
    obtain ⟨n', hn'⟩ := halike.exists_node? hn
    have hsettled : ∀ a m, g.node? a = some m → a ∈ done →
        g.SettledAt inputs (r.show shown) a m := fun a m hm ha => h.settled a m hm (Or.inl ha)
    have hvisit :=
      visit_isSome recompute inputs (h.isLocal id n hn) h.timeout hn (fun hall hnot => ?_) r
    · obtain ⟨r₁, hr₁⟩ := Option.isSome_iff_exists.1 hvisit
      have hstep : g.visit recompute inputs id r = (some r₁, (g.visit recompute inputs id r).2) :=
        Prod.ext hr₁ rfl
      rw [Graph.visitAll, hstep]
      have hlater := g.later_visit recompute inputs id r
      exact ih (h.visit (hdue id) hstep)
        ((Alike.of_later hlater h.isLocal h.timeout).symm.trans halike)
    · -- The settled graph has had the same verdict, so its turn has come to an end.
      have hnear := fun d (hd : TransGen g.DependsOn id d) =>
        halike.near_of_agreeAt h.wellFormed
          (halike.agree h.wellFormed hg' h.isLocal h.timeout h.closed hsettled hsettled'
            (h.mem_done hd)) hd (fun m hm => hsettled d m hm (h.mem_done hd))
          (h.not_hasFailed hn hall hd)
      have hverdict := halike.verdict_eq inputs h.wellFormed h.isLocal h.timeout hn hn' hnear
      obtain ⟨-, -, hretry⟩ := halike.node? id n n' hn hn'
      have hfits := (hsettled' id n' hn').pausesFit (fun d hd => (hnear d ?_).2.1)
        fun w hw => hnot w (hverdict.symm.trans hw)
      · intro k hk hk'
        have := hfits k hk
        rw [Node.tries, Node.pauseFits, hretry, halike.defaultRetry_eq] at this
        exact this hk'
      · exact (halike.transGen_iff id d).1 (.single (by rwa [DependsOn, dependenciesOf_eq hn']))

/-- **A walk over all nodes comes to its end under inputs under which the graph has settled.** -/
theorem execute_isSome (h : g.Alike g') (hg : g.WellFormed) (hg' : g'.WellFormed)
    (hlocal : g.Local) (htimeout : g.nodeTimeout = none) (hsettled' : g'.Settled inputs shown') :
    (g.execute none inputs).1.isSome = true :=
  (settling_all hg hlocal htimeout shown').visitAll_isSome (fun _ _ _ _ => rfl) h hg' hsettled'

end Graph

end ReactiveScript

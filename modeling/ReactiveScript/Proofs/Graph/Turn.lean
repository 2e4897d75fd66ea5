import ReactiveScript.Graph.Execution
import ReactiveScript.Proofs.Graph.Registration

/-!
# The turn of a node

What one turn in a walk leaves of the graph, and which calls of the body it makes.

* `Graph.Attempted` — how the attempts at a node end: the last call completes, or all have failed,
  or a pause does not fit a duration.
* `Graph.Keeps` — what a turn of a node does not touch: every other node up to its dependents, and
  every other value.
* `Graph.Turn` — how a turn ends.  `visit_turn` says that these are all the ways.
-/

set_option autoImplicit false

namespace ReactiveScript

/-- Only what has become of a node changes. -/
structure Node.HistoryOnly (f : Node → Node) : Prop where
  /-- The body stays. -/
  body_eq : ∀ n, (f n).body = n.body
  /-- The parameters stay. -/
  params_eq : ∀ n, (f n).params = n.params
  /-- The dependencies stay. -/
  dependencies_eq : ∀ n, (f n).dependencies = n.dependencies
  /-- The dependents stay. -/
  dependents_eq : ∀ n, (f n).dependents = n.dependents
  /-- The retry policy stays. -/
  retry_eq : ∀ n, (f n).retry = n.retry

namespace Node.HistoryOnly

theorem id : HistoryOnly fun n => n :=
  ⟨fun _ => rfl, fun _ => rfl, fun _ => rfl, fun _ => rfl, fun _ => rfl⟩

theorem comp {f f' : Node → Node} (hf' : HistoryOnly f') (hf : HistoryOnly f) :
    HistoryOnly (f' ∘ f) where
  body_eq n := (hf'.body_eq (f n)).trans (hf.body_eq n)
  params_eq n := (hf'.params_eq (f n)).trans (hf.params_eq n)
  dependencies_eq n := (hf'.dependencies_eq (f n)).trans (hf.dependencies_eq n)
  dependents_eq n := (hf'.dependents_eq (f n)).trans (hf.dependents_eq n)
  retry_eq n := (hf'.retry_eq (f n)).trans (hf.retry_eq n)

theorem begin : HistoryOnly Node.begin :=
  ⟨fun _ => rfl, fun _ => rfl, fun _ => rfl, fun _ => rfl, fun _ => rfl⟩

theorem called : HistoryOnly Node.called :=
  ⟨fun _ => rfl, fun _ => rfl, fun _ => rfl, fun _ => rfl, fun _ => rfl⟩

theorem completed (took : Duration) : HistoryOnly (Node.completed took) :=
  ⟨fun _ => rfl, fun _ => rfl, fun _ => rfl, fun _ => rfl, fun _ => rfl⟩

theorem failed (took : Duration) (e : NodeError) : HistoryOnly (Node.failed took e) :=
  ⟨fun _ => rfl, fun _ => rfl, fun _ => rfl, fun _ => rfl, fun _ => rfl⟩

theorem blocked (d : NodeId) : HistoryOnly (Node.blocked d) :=
  ⟨fun _ => rfl, fun _ => rfl, fun _ => rfl, fun _ => rfl, fun _ => rfl⟩

theorem settle : HistoryOnly Node.settle :=
  ⟨fun _ => rfl, fun _ => rfl, fun _ => rfl, fun _ => rfl, fun _ => rfl⟩

end Node.HistoryOnly

theorem Node.tries_ne_zero (n : Node) (dflt : Option RetryPolicy) : n.tries dflt ≠ 0 := by
  rw [tries]
  cases n.retry.or dflt <;> simp

/-- A report up to what was printed. -/
def Report.quiet (r : Report) : Report := { r with printed := [] }

@[simp] theorem Report.quiet_print (id : NodeId) (lines : List String) (r : Report) :
    (r.print id lines).quiet = r.quiet := by
  rw [print]
  split <;> rfl

theorem Report.executed_of_quiet {r r' : Report} (h : r'.quiet = r.quiet) :
    r'.executed = r.executed := (congrArg executed h :)

theorem Report.failed_of_quiet {r r' : Report} (h : r'.quiet = r.quiet) :
    r'.failed = r.failed := (congrArg failed h :)

theorem Report.blocked_of_quiet {r r' : Report} (h : r'.quiet = r.quiet) :
    r'.blocked = r.blocked := (congrArg blocked h :)

theorem Report.outputs_of_quiet {r r' : Report} (h : r'.quiet = r.quiet) :
    r'.outputs = r.outputs := (congrArg outputs h :)

/-- One call of the body of a node. -/
structure Call where
  /-- What the body was given. -/
  visit : Visit
  /-- What it did. -/
  outcome : Outcome

/-- What a call counts as. -/
def Call.result (c : Call) : Except NodeError Value := c.outcome.result c.visit.limit

namespace Graph

open Relation

variable {g g' : Graph}

theorem update_update (g : Graph) (id : NodeId) (f f' : Node → Node) :
    (g.update id f).update id f' = g.update id (f' ∘ f) := by
  have : ∀ t : Table NodeId Node,
      Table.update id f' (Table.update id f t) = Table.update id (f' ∘ f) t := by
    intro t
    induction t with
    | nil => rfl
    | cons e t ih =>
      obtain ⟨j, n⟩ := e
      by_cases hj : j = id
      · simp [Table.update, hj]
      · simp [Table.update, hj, ih]
  rw [update, update, update, this]

theorem update_id (g : Graph) (id : NodeId) : g.update id (fun n => n) = g := by
  have : ∀ t : Table NodeId Node, Table.update id (fun n => n) t = t := by
    intro t
    induction t with
    | nil => rfl
    | cons e t ih =>
      obtain ⟨j, n⟩ := e
      by_cases hj : j = id
      · simp [Table.update, hj]
      · simp [Table.update, hj, ih]
  rw [update, this]

/-! ## Attempts -/

/-- What the body of a node is given when it is called for the `call`-th time. -/
def visitOf (g : Graph) (inputs : InputTable) (id : NodeId) (args : List Value) (call : Nat) :
    Visit :=
  ⟨id, args, g.values, inputs, g.nodeTimeout, call⟩

/-- The calls that `Graph.attempt` makes. -/
def attemptCalls (inputs : InputTable) (id : NodeId) (body : Body) (args : List Value)
    (fits : Nat → Bool) : Nat → Nat → Graph → List Call
  | 0, _, _ => []
  | left + 1, failures, g =>
    let g := g.update id Node.called
    let visit := g.visitOf inputs id args (((g.node? id).map Node.calls).getD 0)
    let outcome := body visit
    ⟨visit, outcome⟩ :: match outcome.result g.nodeTimeout with
      | .ok _ => []
      | .error e =>
        let g := g.update id (Node.failed outcome.footprint.elapsed e)
        if left = 0 then []
        else if fits (failures + 1) then attemptCalls inputs id body args fits left (failures + 1) g
        else []

/-- How the attempts at a node end, with the calls that were made. -/
inductive Attempted (g : Graph) (inputs : InputTable) (id : NodeId) (body : Body)
    (args : List Value) (r : Report) : List Call → Option Report → Graph → Prop
  /-- The last call completed. -/
  | completed {f : Node → Node} {failures : List Call} {visit : Visit} {v : Value} {r' : Report} :
      Node.HistoryOnly f → (∀ c ∈ failures, ∀ w, c.result ≠ .ok w) →
      (∃ call, visit = g.visitOf inputs id args call) → (body visit).result g.nodeTimeout = .ok v →
      r'.quiet = r.quiet →
      Attempted g inputs id body args r (failures ++ [⟨visit, body visit⟩])
        (some (r'.complete id (body visit).footprint.log.emitted.toList))
        ((g.update id f).complete id v (body visit).footprint)
  /-- All calls failed. -/
  | failed {f : Node → Node} {failures : List Call} {visit : Visit} {e : NodeError}
      {r' : Report} :
      Node.HistoryOnly f → (∀ m, (f m).status = .error ∧ (f m).lastError = some e) →
      (∀ c ∈ failures, ∀ w, c.result ≠ .ok w) →
      (∃ call, visit = g.visitOf inputs id args call) →
      (body visit).result g.nodeTimeout = .error e → r'.quiet = r.quiet →
      Attempted g inputs id body args r failures (some (r'.fail id)) (g.update id f)
  /-- A pause does not fit a duration. -/
  | crashed {f : Node → Node} {failures : List Call} :
      Node.HistoryOnly f → (∀ c ∈ failures, ∀ w, c.result ≠ .ok w) →
      Attempted g inputs id body args r failures none (g.update id f)

section Attempts

variable {inputs : InputTable} {id : NodeId} {body : Body} {args : List Value} {r r' : Report}
  {calls : List Call} {o : Option Report}

/-- Earlier changes to the history of the node make no difference. -/
theorem Attempted.of_update {f : Node → Node} (hf : Node.HistoryOnly f) (hr : r'.quiet = r.quiet)
    (h : Attempted (g.update id f) inputs id body args r' calls o g') :
    Attempted g inputs id body args r calls o g' := by
  cases h with
  | completed hf' hfailures hvisit hresult hr' =>
    rw [update_update]
    exact .completed (hf'.comp hf) hfailures hvisit hresult (hr'.trans hr)
  | failed hf' hend hfailures hvisit hresult hr' =>
    rw [update_update]
    exact .failed (hf'.comp hf) (fun m => hend (f m)) hfailures hvisit hresult (hr'.trans hr)
  | crashed hf' hfailures =>
    rw [update_update]
    exact .crashed (hf'.comp hf) hfailures

theorem Attempted.cons {c : Call} (hc : ∀ w, c.result ≠ .ok w)
    (h : Attempted g inputs id body args r calls o g') :
    Attempted g inputs id body args r (c :: calls) o g' := by
  cases h with
  | completed hf hfailures hvisit hresult hr =>
    rw [← List.cons_append]
    exact .completed hf (List.forall_mem_cons.2 ⟨hc, hfailures⟩) hvisit hresult hr
  | failed hf hend hfailures hvisit hresult hr =>
    exact .failed hf hend (List.forall_mem_cons.2 ⟨hc, hfailures⟩) hvisit hresult hr
  | crashed hf hfailures => exact .crashed hf (List.forall_mem_cons.2 ⟨hc, hfailures⟩)

/-- **There are no other ways for the attempts at a node to end.** -/
theorem attempted (inputs : InputTable) (id : NodeId) (body : Body) (args : List Value)
    (fits : Nat → Bool) {left : Nat} (hleft : left ≠ 0) (failures : Nat) (g : Graph)
    (r : Report) :
    Attempted g inputs id body args r (attemptCalls inputs id body args fits left failures g)
      (attempt inputs id body args fits left failures g r).1
      (attempt inputs id body args fits left failures g r).2 := by
  induction left generalizing failures g r with
  | zero => exact absurd rfl hleft
  | succ left ih =>
    rw [attempt, attemptCalls]
    simp only [visitOf]
    generalize hvisit : (⟨id, args, _, inputs, _, _⟩ : Visit) = visit
    generalize hr : r.print id _ = r₁
    have hr₁ : r₁.quiet = r.quiet := by rw [← hr, Report.quiet_print]
    refine .of_update Node.HistoryOnly.called hr₁ ?_
    have hlimit : visit.limit = (g.update id Node.called).nodeTimeout := by rw [← hvisit]
    have hvisit : ∃ call, visit = (g.update id Node.called).visitOf inputs id args call :=
      ⟨_, hvisit.symm⟩
    generalize g.update id Node.called = g₁ at *
    cases hresult : (body visit).result g₁.nodeTimeout with
    | ok v =>
      have hno : ∀ c ∈ ([] : List Call), ∀ w, c.result ≠ .ok w := fun c hc =>
        absurd hc List.not_mem_nil
      have hfirst : Attempted g₁ inputs id body args r₁ _ _ _ :=
        .completed Node.HistoryOnly.id hno hvisit hresult rfl
      rwa [update_id] at hfirst
    | error e =>
      have hfails : ∀ w, Call.result ⟨visit, body visit⟩ ≠ .ok w := by
        intro w
        rw [Call.result, hlimit, hresult]
        intro heq
        cases heq
      simp only
      by_cases hzero : left = 0
      · rw [if_pos hzero, if_pos hzero, update_update]
        exact .failed (Node.HistoryOnly.settle.comp (Node.HistoryOnly.failed _ e))
          (fun m => ⟨rfl, rfl⟩) (List.forall_mem_singleton.2 hfails) hvisit hresult rfl
      · have hnext := (ih hzero (failures + 1)
          (g₁.update id (Node.failed (body visit).footprint.elapsed e)) r₁).of_update
            (Node.HistoryOnly.failed _ e) rfl
        rw [if_neg hzero, if_neg hzero]
        split
        · exact hnext.cons hfails
        · exact .crashed (Node.HistoryOnly.failed _ e) (List.forall_mem_singleton.2 hfails)

/-- Every call of the attempts at a node is made on the graph as the turn has found it. -/
theorem exists_visitOf_of_mem_attemptCalls {fits : Nat → Bool} {left failures : Nat} {c : Call}
    (hc : c ∈ attemptCalls inputs id body args fits left failures g) :
    (∃ call, c.visit = g.visitOf inputs id args call) ∧ c.outcome = body c.visit := by
  induction left generalizing failures g with
  | zero => cases hc
  | succ left ih =>
    rw [attemptCalls] at hc
    rcases List.mem_cons.1 hc with rfl | hc
    · exact ⟨⟨_, rfl⟩, rfl⟩
    · split at hc
      · cases hc
      · split at hc
        · cases hc
        · split at hc
          · have hvisit := ih hc
            exact hvisit
          · cases hc

theorem attemptCalls_ne_nil {fits : Nat → Bool} {left failures : Nat} (hleft : left ≠ 0) :
    attemptCalls inputs id body args fits left failures g ≠ [] := by
  cases left with
  | zero => exact absurd rfl hleft
  | succ left =>
    rw [attemptCalls]
    exact List.cons_ne_nil _ _

/-- Attempts whose pauses all fit come to an end. -/
theorem attempt_isSome {fits : Nat → Bool} {left failures : Nat}
    (hfits : ∀ k, failures < k → k < failures + left → fits k = true) (g : Graph) (r : Report) :
    (attempt inputs id body args fits left failures g r).1.isSome = true := by
  induction left generalizing failures g r with
  | zero => rfl
  | succ left ih =>
    rw [attempt]
    split
    · rfl
    · split
      · rfl
      · rw [if_pos (hfits (failures + 1) (by omega) (by omega))]
        exact ih (fun k hk hk' => hfits k (by omega) (by omega)) _ _

/-- If all attempts fail, their pauses fit. -/
theorem fits_of_attempt {fits : Nat → Bool} {left failures : Nat} {r' : Report}
    (h : (attempt inputs id body args fits left failures g r).1 = some r')
    (hfails : ∀ c ∈ attemptCalls inputs id body args fits left failures g, ∀ w, c.result ≠ .ok w)
    {k : Nat} (hk : failures < k) (hk' : k < failures + left) : fits k = true := by
  induction left generalizing failures g r with
  | zero => omega
  | succ left ih =>
    rw [attempt] at h
    rw [attemptCalls] at hfails
    obtain ⟨hfirst, hrest⟩ := List.forall_mem_cons.1 hfails
    split at h
    · rename_i v hv
      exact absurd hv (hfirst v)
    · rename_i e he
      simp only [visitOf, he] at hrest
      split at h
      · omega
      · rename_i hleft
        rw [if_neg hleft] at hrest
        split at h
        · rename_i hfit
          rw [if_pos hfit] at hrest
          rcases Nat.lt_or_ge (failures + 1) k with hlt | hge
          · exact ih h hrest hlt (by omega)
          · rwa [show k = failures + 1 by omega]
        · cases h

end Attempts

/-! ## What a turn does not touch -/

/-- What a turn of a node leaves of the rest of the graph and of the node's own set-up. -/
structure Keeps (g g' : Graph) (id : NodeId) : Prop where
  /-- No node comes or goes. -/
  ids_eq : g'.ids = g.ids
  /-- Other nodes keep everything but their dependents. -/
  core_eq : ∀ j, j ≠ id → (g'.node? j).map Node.core = (g.node? j).map Node.core
  /-- Other nodes keep their values. -/
  value?_eq : ∀ j, j ≠ id → g'.value? j = g.value? j
  /-- The node keeps what it does, and does not lose a dependency. -/
  node? : ∀ n, g.node? id = some n → ∃ n', g'.node? id = some n' ∧ n'.body = n.body ∧
    n'.params = n.params ∧ n'.retry = n.retry ∧ n.dependencies ⊆ n'.dependencies
  /-- The settings stay. -/
  defaultRetry_eq : g'.defaultRetry = g.defaultRetry
  /-- The settings stay. -/
  nodeTimeout_eq : g'.nodeTimeout = g.nodeTimeout
  /-- The shape stays sound. -/
  wellFormed : g.WellFormed → g'.WellFormed

namespace Keeps

theorem refl (g : Graph) (id : NodeId) : g.Keeps g id where
  ids_eq := rfl
  core_eq _ _ := rfl
  value?_eq _ _ := rfl
  node? n hn := ⟨n, hn, rfl, rfl, rfl, List.Subset.refl _⟩
  defaultRetry_eq := rfl
  nodeTimeout_eq := rfl
  wellFormed h := h

theorem trans {g'' : Graph} {id : NodeId} (h : g.Keeps g' id) (h' : g'.Keeps g'' id) :
    g.Keeps g'' id where
  ids_eq := h'.ids_eq.trans h.ids_eq
  core_eq j hj := (h'.core_eq j hj).trans (h.core_eq j hj)
  value?_eq j hj := (h'.value?_eq j hj).trans (h.value?_eq j hj)
  node? n hn := by
    obtain ⟨n', hn', hbody, hparams, hretry, hsub⟩ := h.node? n hn
    obtain ⟨n'', hn'', hbody', hparams', hretry', hsub'⟩ := h'.node? n' hn'
    exact ⟨n'', hn'', hbody'.trans hbody, hparams'.trans hparams, hretry'.trans hretry,
      List.Subset.trans hsub hsub'⟩
  defaultRetry_eq := h'.defaultRetry_eq.trans h.defaultRetry_eq
  nodeTimeout_eq := h'.nodeTimeout_eq.trans h.nodeTimeout_eq
  wellFormed hg := h'.wellFormed (h.wellFormed hg)

theorem update {f : Node → Node} (hf : Node.HistoryOnly f) (g : Graph) (id : NodeId) :
    g.Keeps (g.update id f) id where
  ids_eq := ids_update g id f
  core_eq j hj := by rw [node?_update, if_neg (Ne.symm hj)]
  value?_eq _ _ := rfl
  node? n hn := by
    refine ⟨f n, by rw [node?_update, if_pos rfl, hn]; rfl, hf.body_eq n, hf.params_eq n,
      hf.retry_eq n, ?_⟩
    rw [hf.dependencies_eq]
    exact List.Subset.refl _
  defaultRetry_eq := rfl
  nodeTimeout_eq := rfl
  wellFormed h := h.update id hf.dependencies_eq hf.dependents_eq hf.params_eq

theorem dependenciesOf_eq {id j : NodeId} (h : g.Keeps g' id) (hj : j ≠ id) :
    g'.dependenciesOf j = g.dependenciesOf j :=
  dependenciesOf_congr (h.core_eq j hj)

theorem dependsOn {id a b : NodeId} (h : g.Keeps g' id) (hab : g.DependsOn a b) :
    g'.DependsOn a b := by
  by_cases ha : a = id
  · subst ha
    obtain ⟨n, hn⟩ := mem_ids_iff.1 (mem_ids_of_mem_dependenciesOf hab)
    obtain ⟨n', hn', -, -, -, hsub⟩ := h.node? n hn
    rw [DependsOn, Graph.dependenciesOf_eq hn] at hab
    rw [DependsOn, Graph.dependenciesOf_eq hn']
    exact hsub hab
  · rwa [DependsOn, h.dependenciesOf_eq ha]

end Keeps

/-! ## Reads become edges -/

/-- What a record of reads makes of a graph is made by single edges that close no cycle. -/
theorem recordReads_induction {P : Graph → Prop} {id : NodeId} {reads : List NodeId} (h : P g)
    (hstep : ∀ g d, P g → d ∈ reads → d ∈ g.ids → id ∈ g.ids → id ≠ d → d ∉ g.affected [id] →
      P (g.withEdge id d)) : P (g.recordReads id reads) := by
  induction reads generalizing g with
  | nil => exact h
  | cons read reads ih =>
    have hlater : ∀ g d, P g → d ∈ reads → d ∈ g.ids → id ∈ g.ids → id ≠ d → d ∉ g.affected [id] →
        P (g.withEdge id d) := fun g d hP hd => hstep g d hP (List.mem_cons_of_mem _ hd)
    rw [recordReads, List.foldl_cons]
    refine ih ?_ hlater
    split
    · exact h
    · rename_i hread
      have hread : read ∈ g.ids := contains_iff.1 (by simpa using hread)
      have hplaced : g.withPlaceholders [read] = g := by
        rw [withPlaceholders, if_pos (contains_iff.2 hread), withPlaceholders]
      split
      · rename_i isNew g₁ hadd
        obtain ⟨n, hn, hne, hd, ⟨-, -, rfl⟩ | ⟨-, -, rfl⟩⟩ := addDependency_cases hadd
        · rwa [hplaced]
        · rw [hplaced]
          exact hstep g read h List.mem_cons_self hread (mem_ids_iff.2 ⟨n, hn⟩) hne hd
      · exact h

/-- What recording reads of a node leaves of the graph. -/
structure Recorded (g g' : Graph) (id : NodeId) (reads : List NodeId) : Prop where
  /-- Everything that a turn keeps. -/
  keeps : g.Keeps g' id
  /-- No value changes. -/
  values_eq : g'.values = g.values
  /-- No unit changes hands. -/
  producers_eq : g'.producers = g.producers
  /-- The node keeps its history, and gets no dependency but what it read. -/
  node? : ∀ n, g.node? id = some n → ∃ ds, g'.node? id = some { n with dependencies := ds } ∧
    ∀ d ∈ ds, d ∈ n.dependencies ∨ d ∈ reads

theorem node?_withEdge_self (g : Graph) {id d : NodeId} (hne : id ≠ d) :
    (g.withEdge id d).node? id = (g.node? id).map (Node.addDependency d) := by
  rw [withEdge, node?_addDependent id (List.nodup_singleton d),
    if_neg fun h => hne (List.mem_singleton.1 h), node?_update, if_pos rfl]

theorem recorded_recordReads (g : Graph) (id : NodeId) (reads : List NodeId) :
    Recorded g (g.recordReads id reads) id reads := by
  refine recordReads_induction (P := fun g' => Recorded g g' id reads) ?_ ?_
  · exact ⟨.refl g id, rfl, rfl, fun n hn => ⟨n.dependencies, hn, fun d hd => Or.inl hd⟩⟩
  · intro g' d h hread hd hid hne hcycle
    have hnode := node?_withEdge_self g' hne
    have hkeeps : g'.Keeps (g'.withEdge id d) id := by
      refine ⟨ids_withEdge g' id d, fun j hj => ?_, fun _ _ => rfl, fun n hn => ?_, rfl, rfl,
        fun hg => hg.withEdge hid hd (hg.not_reaches hne hcycle)⟩
      · rw [core_withEdge, if_neg (Ne.symm hj)]
      · rw [hn] at hnode
        exact ⟨_, hnode, rfl, rfl, rfl, fun k hk => NodeId.mem_insert.2 (Or.inr hk)⟩
    refine ⟨h.keeps.trans hkeeps, h.values_eq, h.producers_eq, fun n hn => ?_⟩
    obtain ⟨ds, hds, hsub⟩ := h.node? n hn
    rw [hds] at hnode
    refine ⟨_, hnode, fun k hk => ?_⟩
    rcases NodeId.mem_insert.1 hk with rfl | hk
    · exact Or.inr hread
    · exact hsub k hk

/-! ## A completed run -/

section Complete

variable {id : NodeId} {v : Value} {f : Footprint}

theorem keeps_complete (g : Graph) (id : NodeId) (v : Value) (f : Footprint) :
    g.Keeps (g.complete id v f) id := by
  have hreads := (recorded_recordReads g id f.reads).keeps
  have hstored : g.Keeps { g.recordReads id f.reads with
      producers := f.log.emitted.toList.foldl (fun ps u => Table.put u.id id ps)
        (g.recordReads id f.reads).producers
      values := Table.put id v (g.recordReads id f.reads).values } id := by
    refine ⟨hreads.ids_eq, hreads.core_eq, fun j hj => ?_, hreads.node?, hreads.defaultRetry_eq,
      hreads.nodeTimeout_eq, fun hg => ?_⟩
    · rw [value?, Table.get?_put, if_neg (Ne.symm hj)]
      exact hreads.value?_eq j hj
    · exact (hreads.wellFormed hg).of_shape rfl (fun _ => rfl) (fun _ => rfl) fun _ => rfl
  exact hstored.trans (.update (.completed f.elapsed) _ id)

theorem value?_complete (g : Graph) (id : NodeId) (v : Value) (f : Footprint) :
    (g.complete id v f).value? id = some v := by
  rw [value?]
  exact (Table.get?_put _ id id v).trans (if_pos rfl)

theorem node?_complete {n : Node} (hn : g.node? id = some n) (v : Value) (f : Footprint) :
    ∃ ds, (g.complete id v f).node? id = some (Node.completed f.elapsed { n with dependencies := ds })
      ∧ ∀ d ∈ ds, d ∈ n.dependencies ∨ d ∈ f.reads := by
  obtain ⟨ds, hds, hsub⟩ := (recorded_recordReads g id f.reads).node? n hn
  refine ⟨ds, ?_, hsub⟩
  rw [complete, node?_update, if_pos rfl]
  exact congrArg (Option.map (Node.completed f.elapsed)) hds

theorem producers_complete (g : Graph) (id : NodeId) (v : Value) (f : Footprint) :
    (g.complete id v f).producers
      = f.log.emitted.toList.foldl (fun ps u => Table.put u.id id ps) g.producers := by
  rw [← (recorded_recordReads g id f.reads).producers_eq]
  rfl

end Complete

/-! ## The turn -/

/-- The calls that `Graph.run` makes. -/
def runCalls (g : Graph) (inputs : InputTable) (id : NodeId) (n : Node) : List Call :=
  attemptCalls inputs id n.body (g.arguments n.params) (n.pauseFits g.defaultRetry)
    (n.tries g.defaultRetry) 0 (g.update id Node.begin)

/-- The calls that `Graph.visit` makes. -/
def visitCalls (g : Graph) (recompute : Option (List NodeId)) (inputs : InputTable)
    (id : NodeId) : List Call :=
  match g.node? id with
  | none => []
  | some n =>
    if !g.selects recompute id n then []
    else match n.dependencies.find? g.hasFailed with
      | some _ => []
      | none => g.runCalls inputs id n

/-- How the turn of a node ends. -/
inductive Turn (g : Graph) (recompute : Option (List NodeId)) (inputs : InputTable) (id : NodeId)
    (r : Report) : List Call → Option Report → Graph → Prop
  /-- The node is not selected. -/
  | skipped : (∀ n, g.node? id = some n → g.selects recompute id n = false) →
      Turn g recompute inputs id r [] (some r) g
  /-- A dependency has failed. -/
  | blocked {n : Node} {d : NodeId} : g.node? id = some n → g.selects recompute id n = true →
      n.dependencies.find? g.hasFailed = some d →
      Turn g recompute inputs id r [] (some (r.block id)) (g.update id (Node.settle ∘ Node.blocked d))
  /-- The node runs. -/
  | ran {n : Node} {calls : List Call} {o : Option Report} {g' : Graph} : g.node? id = some n →
      g.selects recompute id n = true → (∀ d ∈ n.dependencies, g.hasFailed d = false) →
      calls = g.runCalls inputs id n → (o, g') = g.run inputs id n r →
      Attempted g inputs id n.body (g.arguments n.params) r calls o g' →
      Turn g recompute inputs id r calls o g'

/-- **There are no other ways for a turn to end.** -/
theorem visit_turn (g : Graph) (recompute : Option (List NodeId)) (inputs : InputTable)
    (id : NodeId) (r : Report) :
    Turn g recompute inputs id r (g.visitCalls recompute inputs id)
      (g.visit recompute inputs id r).1 (g.visit recompute inputs id r).2 := by
  rw [visit, visitCalls]
  cases hn : g.node? id with
  | none => exact .skipped fun n hn' => by cases hn.symm.trans hn'
  | some n =>
    simp only
    cases hselects : g.selects recompute id n with
    | false =>
      refine .skipped fun n' hn' => ?_
      obtain rfl : n = n' := Option.some.inj (hn.symm.trans hn')
      exact hselects
    | true =>
      simp only [Bool.not_true, Bool.false_eq_true, if_false]
      cases hfind : n.dependencies.find? g.hasFailed with
      | some d => exact .blocked hn hselects hfind
      | none =>
        refine .ran hn hselects (fun d hd => ?_) rfl rfl ?_
        · simpa using List.find?_eq_none.1 hfind d hd
        · exact (attempted inputs id n.body (g.arguments n.params) _ (n.tries_ne_zero _) 0
            (g.update id Node.begin) r).of_update .begin rfl

namespace Attempted

variable {inputs : InputTable} {id : NodeId} {body : Body} {args : List Value} {r : Report}
  {calls : List Call} {o : Option Report}

theorem keeps (h : Attempted g inputs id body args r calls o g') : g.Keeps g' id := by
  cases h with
  | completed hf _ _ _ _ => exact (Keeps.update hf g id).trans (keeps_complete _ id _ _)
  | failed hf _ _ _ _ _ => exact .update hf g id
  | crashed hf _ => exact .update hf g id

end Attempted

theorem Turn.keeps {recompute : Option (List NodeId)} {inputs : InputTable} {id : NodeId}
    {r : Report} {calls : List Call} {o : Option Report}
    (h : Turn g recompute inputs id r calls o g') : g.Keeps g' id := by
  cases h with
  | skipped _ => exact .refl g id
  | blocked _ _ _ => exact .update (.comp .settle (.blocked _)) g id
  | ran _ _ _ _ _ hattempted => exact hattempted.keeps

theorem keeps_visit (g : Graph) (recompute : Option (List NodeId)) (inputs : InputTable)
    (id : NodeId) (r : Report) : g.Keeps (g.visit recompute inputs id r).2 id :=
  (visit_turn g recompute inputs id r).keeps

end Graph

end ReactiveScript

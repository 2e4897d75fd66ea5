import ReactiveScript.Proofs.Graph.Pauses
import ReactiveScript.Proofs.Graph.Reads

/-!
# A walk does what was selected

The report of a walk that comes to its end is an account of the selected nodes: each of them stands
in one of its three lists, and no other node does.  Which list it is can be told from the calls of
the body of the node: none was made, one completed, or all failed (`Graph.listOf`).  So each list is
a part of the order of execution.

* `Graph.Due` — the nodes that a walk is to run.
* `Graph.visitAll_listed` — the lists of a report.
* `Graph.Fares`, `Turn.fares` — what becomes of a node in its turn.
* `execute_does_its_selection` — the theorem.
-/

set_option autoImplicit false

namespace ReactiveScript

/-- Where a report puts a node. -/
inductive Listing where
  /-- It ran and completed. -/
  | executed
  /-- It ran and failed. -/
  | failed
  /-- It did not run. -/
  | blocked
  deriving DecidableEq

/-- The nodes that a report puts somewhere. -/
def Report.listed (r : Report) : Listing → List NodeId
  | .executed => r.executed
  | .failed => r.failed
  | .blocked => r.blocked

theorem Report.listed_of_quiet {r r' : Report} (h : r'.quiet = r.quiet) (l : Listing) :
    r'.listed l = r.listed l := by
  cases l with
  | executed => exact Report.executed_of_quiet h
  | failed => exact Report.failed_of_quiet h
  | blocked => exact Report.blocked_of_quiet h

namespace Graph

open Relation

variable {g g' : Graph} {recompute : Option (List NodeId)} {inputs : InputTable} {id : NodeId}
  {body : Body} {args : List Value} {fits : Nat → Bool} {left failures : Nat} {r r' : Report}
  {calls : List Call} {o : Option Report}

/-! ## Which nodes are listed where -/

/-- A node that a walk is to run: in a walk over a set, one that is in it, that is forced, or that
failed by itself and has a retry policy. -/
def Due (g : Graph) (recompute : Option (List NodeId)) (id : NodeId) : Prop :=
  ∃ n, g.node? id = some n ∧ ∀ ids, recompute = some ids →
    id ∈ ids ∨ n.force = true ∨
      (n.status = .error ∧ (∀ d, n.lastError ≠ some (.dependencyFailed d)) ∧
        (n.retry ≠ none ∨ g.defaultRetry ≠ none))

/-- Whether a walk is to run a node. -/
def selected (g : Graph) (recompute : Option (List NodeId)) (id : NodeId) : Bool :=
  (g.node? id).any (g.selects recompute id)

theorem wantsRetry_iff {n : Node} : n.wantsRetry g.defaultRetry = true ↔
    n.status = .error ∧ (∀ d, n.lastError ≠ some (.dependencyFailed d)) ∧
      (n.retry ≠ none ∨ g.defaultRetry ≠ none) := by
  have hblock : (n.lastError.map NodeError.isBlock).getD false = false ↔
      ∀ d, n.lastError ≠ some (.dependencyFailed d) := by
    cases n.lastError with
    | none => simp
    | some e => cases e <;> simp [NodeError.isBlock]
  have hpolicy : (n.retry.or g.defaultRetry).isSome = true ↔
      n.retry ≠ none ∨ g.defaultRetry ≠ none := by
    cases n.retry <;> cases g.defaultRetry <;> simp
  rw [Node.wantsRetry, Bool.and_eq_true, Bool.and_eq_true, Bool.not_eq_true', hblock, hpolicy,
    beq_iff_eq, and_assoc, and_comm (a := n.retry ≠ none ∨ _)]

theorem selected_iff_due : g.selected recompute id = true ↔ g.Due recompute id := by
  rw [selected, Option.any_eq_true, Due]
  refine exists_congr fun n => and_congr_right fun _ => ?_
  cases recompute with
  | none => simp [selects]
  | some ids => simp [selects, or_assoc, wantsRetry_iff]

theorem selected_eq {n : Node} (hn : g.node? id = some n) :
    g.selected recompute id = g.selects recompute id n := by
  rw [selected, hn, Option.any_some]

/-- Whether a node is selected is a matter of its history and of the settings. -/
theorem selected_congr (hcore : (g'.node? id).map Node.core = (g.node? id).map Node.core)
    (hdefault : g'.defaultRetry = g.defaultRetry) :
    g'.selected recompute id = g.selected recompute id := by
  rw [selected, selected]
  cases hn : g.node? id with
  | none =>
    rw [hn, Option.map_none, Option.map_eq_none_iff] at hcore
    rw [hcore, Option.any_none, Option.any_none]
  | some n =>
    rw [hn, Option.map_some] at hcore
    obtain ⟨n', hn', hcore⟩ := Option.map_eq_some_iff.1 hcore
    rw [hn', Option.any_some, Option.any_some]
    have hforce : n'.force = n.force := (congrArg Node.force hcore :)
    have hstatus : n'.status = n.status := (congrArg Node.status hcore :)
    have herror : n'.lastError = n.lastError := (congrArg Node.lastError hcore :)
    have hretry : n'.retry = n.retry := (congrArg Node.retry hcore :)
    cases recompute with
    | none => rfl
    | some ids =>
      rw [selects, selects, Node.wantsRetry, Node.wantsRetry, hforce, hstatus, herror, hretry,
        hdefault]

/-- Where a report puts a node, by whether it is selected and the calls of its body. -/
def listOf (selected : Bool) (calls : List Call) : Option Listing :=
  if calls.isEmpty then if selected then some .blocked else none
  else if calls.any Call.completes then some .executed else some .failed

/-- The attempts at a node end with a call that completed, or all calls have failed. -/
theorem Attempted.listed_eq (h : Attempted g inputs id body args r calls (some r') g') :
    (∃ before last, calls = before ++ [last] ∧ (∀ c ∈ before, c.completes = false) ∧
      last.completes = true ∧ ∀ l, r'.listed l = r.listed l ++ [id].filter fun _ => .executed = l) ∨
    ((∀ c ∈ calls, c.completes = false) ∧
      ∀ l, r'.listed l = r.listed l ++ [id].filter fun _ => .failed = l) := by
  have hfail : ∀ {calls : List Call}, (∀ c ∈ calls, ∀ w, c.result ≠ .ok w) →
      ∀ c ∈ calls, c.completes = false := fun hcalls c hc =>
    Bool.eq_false_iff.2 fun hcompletes =>
      (Call.completes_iff.1 hcompletes).elim fun w hw => hcalls c hc w hw
  cases h with
  | @completed f before visit v r'' _ hbefore hvisit hresult hquiet =>
    obtain ⟨call, rfl⟩ := hvisit
    refine Or.inl ⟨before, _, rfl, hfail hbefore, Call.completes_iff.2 ⟨v, hresult⟩, fun l => ?_⟩
    rw [← Report.listed_of_quiet hquiet]
    cases l <;> simp [Report.listed, Report.complete]
  | failed _ _ hcalls _ _ hquiet =>
    refine Or.inr ⟨hfail hcalls, fun l => ?_⟩
    rw [← Report.listed_of_quiet hquiet]
    cases l <;> simp [Report.listed, Report.fail]

/-- A turn puts its node into the list that its calls tell. -/
theorem Turn.listed_eq (h : Turn g recompute inputs id r calls (some r') g') (l : Listing) :
    r'.listed l = r.listed l ++
      [id].filter fun _ => decide (listOf (g.selected recompute id) calls = some l) := by
  cases h with
  | skipped hnot =>
    have hselected : g.selected recompute id = false := by
      rw [selected]
      cases hn : g.node? id with
      | none => rfl
      | some n => exact hnot n hn
    simp [listOf, hselected]
  | blocked hn hselects =>
    rw [selected_eq hn, hselects]
    cases l <;> simp [listOf, Report.listed, Report.block]
  | ran hn hselects _ hcalls _ hattempted =>
    have hne : calls ≠ [] := hcalls ▸ attemptCalls_ne_nil (Node.tries_ne_zero _ _)
    rcases hattempted.listed_eq with ⟨before, last, rfl, -, hlast, hlisted⟩ | ⟨hfail, hlisted⟩
    · rw [hlisted l]
      simp [listOf, hlast]
    · have hany : calls.any Call.completes = false := by simpa using hfail
      rw [hlisted l]
      simp [listOf, hne, hany]

/-- **Each list of a report is a part of the order of execution**: the nodes whose calls tell so. -/
theorem visitAll_listed {ids : List NodeId} (hids : ids.Nodup)
    (h : visitAll recompute inputs ids g r = (some r', g')) (l : Listing) :
    r'.listed l = r.listed l ++ ids.filter fun j =>
      decide (listOf (g.selected recompute j)
        (callsTo j (visitAllCalls recompute inputs ids g r)) = some l) := by
  induction ids generalizing g r with
  | nil =>
    cases h
    exact (List.append_nil _).symm
  | cons id ids ih =>
    obtain ⟨hid, hids⟩ := List.nodup_cons.1 hids
    obtain ⟨r₁, g₁, hvisit, hrest⟩ := visitAll_cons h
    have hturn := visit_turn g recompute inputs id r
    rw [hvisit] at hturn
    rw [ih hids hrest, hturn.listed_eq l, List.append_assoc, visitAllCalls, hvisit]
    have hsplit : id :: ids = [id] ++ ids := rfl
    rw [hsplit, List.filter_append]
    refine congrArg (r.listed l ++ ·) (congrArg₂ (· ++ ·) ?_ ?_)
    · -- The rest of the walk makes no calls of this body.
      refine List.filter_congr fun j hj => ?_
      obtain rfl := List.mem_singleton.1 hj
      rw [callsTo_append, callsTo_visitCalls, if_pos rfl, callsTo_visitAllCalls_of_not_mem hid,
        List.append_nil]
    · refine List.filter_congr fun j hj => ?_
      have hne : j ≠ id := fun heq => hid (heq ▸ hj)
      rw [callsTo_append, callsTo_visitCalls, if_neg hne, List.nil_append,
        selected_congr (hturn.keeps.core_eq j hne) hturn.keeps.defaultRetry_eq]

/-! ## What becomes of a node -/

/-- One more attempt before some others. -/
theorem count_succ (attempts : Fin Node.countBound) (more : ℕ) :
    ((attempts + 1).val + more) % Node.countBound
      = (attempts.val + (more + 1)) % Node.countBound := by
  rw [Fin.val_add, Nat.mod_add_mod, Nat.add_assoc, Nat.add_comm more]
  rfl

theorem count_zero (attempts : Fin Node.countBound) :
    (attempts.val + 0) % Node.countBound = attempts.val := Nat.mod_eq_of_lt attempts.isLt

/-- Every attempt is counted, there are no more than are left, and if they do not break off, the
node is no longer forced and either one of them completed or none is left. -/
theorem attempt_tally {n : Node} (hn : g.node? id = some n) (hleft : left ≠ 0) (failures : Nat)
    (r : Report) :
    (attemptCalls inputs id body args fits left failures g).length ≤ left ∧
    ∃ n', (attempt inputs id body args fits left failures g r).2.node? id = some n' ∧
      n'.attempts.val = (n.attempts.val +
        (attemptCalls inputs id body args fits left failures g).length) % Node.countBound ∧
      ((attempt inputs id body args fits left failures g r).1.isSome = true → n'.force = false ∧
        ((attemptCalls inputs id body args fits left failures g).any Call.completes = true ∨
          (attemptCalls inputs id body args fits left failures g).length = left)) := by
  induction left generalizing failures g r n with
  | zero => exact absurd rfl hleft
  | succ left ih =>
    rw [attempt, attemptCalls]
    simp only [visitOf]
    generalize hvisit : (⟨id, args, _, inputs, _, _⟩ : Visit) = visit
    have hlimit : visit.limit = (g.update id Node.called).nodeTimeout := by rw [← hvisit]
    have hcalled : (g.update id Node.called).node? id = some n.called := by
      rw [node?_update, if_pos rfl, hn]
      rfl
    generalize g.update id Node.called = g₁ at *
    cases hresult : (body visit).result g₁.nodeTimeout with
    | ok v =>
      have hcompletes : Call.completes ⟨visit, body visit⟩ = true :=
        Call.completes_iff.2 ⟨v, by rw [Call.result, hlimit, hresult]⟩
      obtain ⟨ds, hds, -⟩ := node?_complete hcalled v (body visit).footprint
      exact ⟨Nat.succ_le_succ (Nat.zero_le _), _, hds, rfl, fun _ =>
        ⟨rfl, Or.inl (List.any_eq_true.2 ⟨_, List.mem_cons_self, hcompletes⟩)⟩⟩
    | error e =>
      have hfailed : (g₁.update id (Node.failed (body visit).footprint.elapsed e)).node? id
          = some (n.called.failed (body visit).footprint.elapsed e) := by
        rw [node?_update, if_pos rfl, hcalled]
        rfl
      by_cases hzero : left = 0
      · simp only [if_pos hzero]
        refine ⟨Nat.succ_le_succ (Nat.zero_le _),
          (n.called.failed (body visit).footprint.elapsed e).settle, ?_, rfl, fun _ =>
            ⟨rfl, Or.inr (by rw [hzero]; rfl)⟩⟩
        rw [node?_update, if_pos rfl, hfailed]
        rfl
      · simp only [if_neg hzero]
        split
        · obtain ⟨hlength, n', hn', hattempts, hend⟩ := ih hfailed hzero (failures + 1)
            (r.print id (body visit).footprint.log.printed.toList)
          refine ⟨Nat.succ_le_succ hlength, n', hn', ?_, fun hsome => ?_⟩
          · rw [hattempts, List.length_cons]
            exact count_succ n.attempts _
          · obtain ⟨hforce, hany | hall⟩ := hend hsome
            · exact ⟨hforce, Or.inl (by rw [List.any_cons, hany, Bool.or_true])⟩
            · exact ⟨hforce, Or.inr (by rw [List.length_cons, hall])⟩
        · exact ⟨Nat.succ_le_succ (Nat.zero_le _), _, hfailed, rfl,
            fun hsome => absurd hsome Bool.false_ne_true⟩

theorem run_tally {n : Node} (hn : g.node? id = some n) (inputs : InputTable) (r : Report) :
    (g.runCalls inputs id n).length ≤ n.tries g.defaultRetry ∧
    ∃ n', (g.run inputs id n r).2.node? id = some n' ∧
      n'.attempts.val
        = (n.attempts.val + (g.runCalls inputs id n).length) % Node.countBound ∧
      n'.status = endStatus (g.runCalls inputs id n) ∧
      ((g.run inputs id n r).1.isSome = true → n'.force = false ∧
        ((g.runCalls inputs id n).any Call.completes = true ∨
          (g.runCalls inputs id n).length = n.tries g.defaultRetry)) := by
  have hbegun : (g.update id Node.begin).node? id = some n.begin := by
    rw [node?_update, if_pos rfl, hn]
    rfl
  have htries : n.tries g.defaultRetry ≠ 0 := n.tries_ne_zero _
  obtain ⟨hlength, n', hn', hattempts, hend⟩ := attempt_tally hbegun htries 0 r
  obtain ⟨m, hm, hstatus⟩ := status_attempt (r := r) hbegun htries
  obtain rfl := Option.some.inj (hn'.symm.trans hm)
  exact ⟨hlength, n', hn', hattempts, hstatus, hend⟩

/-- What becomes of a node in a walk that comes to its end. -/
structure Fares (dflt : Option RetryPolicy) (selected : Bool) (n : Node) (calls : List Call)
    (n' : Node) : Prop where
  /-- Only the bodies of selected nodes are called. -/
  selected_of_calls : calls ≠ [] → selected = true
  /-- A body is called until a call completes. -/
  failed_before : ∀ c ∈ calls.dropLast, c.completes = false
  /-- It is not called more often than the policy of the node allows. -/
  length_le : calls.length ≤ n.tries dflt
  /-- It is called that often if no call completes. -/
  length_eq : calls ≠ [] → calls.any Call.completes = false → calls.length = n.tries dflt
  /-- The calls are counted, in thirty-two bits. -/
  attempts_eq : n'.attempts.val = (n.attempts.val + calls.length) % Node.countBound
  /-- A selected node has completed or failed. -/
  status_eq : n'.status = if selected then endStatus calls else n.status
  /-- A selected node is no longer forced. -/
  force_eq : n'.force = if selected then false else n.force

/-- **What becomes of a node in its turn.** -/
theorem Turn.fares {n : Node} (h : Turn g recompute inputs id r calls (some r') g')
    (hn : g.node? id = some n) : ∃ n', g'.node? id = some n' ∧
      Fares g.defaultRetry (g.selected recompute id) n calls n' := by
  have hidle : ∀ selected n', n'.attempts = n.attempts →
      (n'.status = if selected then .error else n.status) →
      (n'.force = if selected then false else n.force) →
      Fares g.defaultRetry selected n [] n' := fun selected n' hattempts hstatus hforce =>
    ⟨fun hne => absurd rfl hne, fun c hc => absurd hc List.not_mem_nil, Nat.zero_le _,
      fun hne => absurd rfl hne, hattempts ▸ (count_zero n.attempts).symm, hstatus, hforce⟩
  cases h with
  | skipped hnot =>
    rw [selected_eq hn, hnot n hn]
    exact ⟨n, hn, hidle false n rfl rfl rfl⟩
  | @blocked m d hm hselects =>
    obtain rfl := Option.some.inj (hn.symm.trans hm)
    rw [selected_eq hn, hselects]
    refine ⟨(n.blocked d).settle, ?_, hidle true _ rfl rfl rfl⟩
    rw [node?_update, if_pos rfl, hn]
    rfl
  | @ran m _ _ _ hm hselects _ hcalls hrun hattempted =>
    obtain rfl := Option.some.inj (hn.symm.trans hm)
    rw [selected_eq hn, hselects]
    obtain ⟨hlength, n', hn', hattempts, hstatus, hend⟩ := run_tally hn inputs r
    rw [← hrun] at hn' hend
    rw [← hcalls] at hlength hattempts hstatus hend
    obtain ⟨hforce, hend⟩ := hend rfl
    refine ⟨n', hn', fun _ => rfl, fun c hc => ?_, hlength, fun _ hany => ?_, hattempts, hstatus,
      hforce⟩
    · rcases hattempted.listed_eq with ⟨before, last, rfl, hbefore, -⟩ | ⟨hfail, -⟩
      · rw [List.dropLast_concat] at hc
        exact hbefore c hc
      · exact hfail c (List.dropLast_subset _ hc)
    · exact hend.resolve_left (by rw [hany]; exact Bool.false_ne_true)

/-- What becomes of a node is a matter of its history. -/
theorem Fares.of_core {dflt : Option RetryPolicy} {selected : Bool} {n n' m m' : Node}
    (h : Fares dflt selected n calls n') (hm : m.core = n.core) (hm' : m'.core = n'.core) :
    Fares dflt selected m calls m' := by
  have hattempts : m.attempts = n.attempts := (congrArg Node.attempts hm :)
  have hstatus : m.status = n.status := (congrArg Node.status hm :)
  have hforce : m.force = n.force := (congrArg Node.force hm :)
  have hretry : m.retry = n.retry := (congrArg Node.retry hm :)
  have htries : m.tries dflt = n.tries dflt := by rw [Node.tries, Node.tries, hretry]
  refine ⟨h.selected_of_calls, h.failed_before, htries ▸ h.length_le,
    fun hne hany => htries ▸ h.length_eq hne hany, ?_, ?_, ?_⟩
  · rw [hattempts, ← h.attempts_eq]
    exact congrArg Fin.val (congrArg Node.attempts hm' :)
  · rw [hstatus, ← h.status_eq]
    exact (congrArg Node.status hm' :)
  · rw [hforce, ← h.force_eq]
    exact (congrArg Node.force hm' :)

/-! ## One node in a walk -/

theorem visitAllCalls_append {ids ids' : List NodeId} {g₁ : Graph} {r₁ : Report}
    (h : visitAll recompute inputs ids g r = (some r₁, g₁)) :
    visitAllCalls recompute inputs (ids ++ ids') g r =
      visitAllCalls recompute inputs ids g r ++ visitAllCalls recompute inputs ids' g₁ r₁ := by
  induction ids generalizing g r with
  | nil =>
    cases h
    rfl
  | cons id ids ih =>
    obtain ⟨r₂, g₂, hvisit, hrest⟩ := visitAll_cons h
    rw [List.cons_append, visitAllCalls, visitAllCalls, hvisit, List.append_assoc]
    exact congrArg _ (ih hrest)

/-- Every node has its turn in a walk, and the calls of its body are those of the turn. -/
theorem exists_turnIn_callsTo (hg : g.WellFormed)
    (h : g.execute recompute inputs = (some r, g')) (hid : id ∈ g.ids) :
    ∃ g₁ r₁ r₂ g₂, TurnIn g recompute inputs id r g' g₁ r₁
      (callsTo id (g.executeCalls recompute inputs)) r₂ g₂ ∧ g₁.defaultRetry = g.defaultRetry := by
  obtain ⟨pre, post, horder⟩ := List.append_of_mem (hg.mem_order_iff.2 hid)
  have hnodup := hg.nodup_order
  rw [horder] at hnodup
  have hpost : id ∉ post := (List.nodup_cons.1 (List.nodup_append.1 hnodup).2.1).1
  have hpre : id ∉ pre := fun hmem =>
    (List.nodup_append.1 hnodup).2.2 id hmem id List.mem_cons_self rfl
  rw [execute, horder] at h
  obtain ⟨r₁, g₁, hfirst, hrest⟩ := visitAll_append h
  obtain ⟨r₂, g₂, hvisit, hafter⟩ := visitAll_cons hrest
  have hcalls :
      callsTo id (g.executeCalls recompute inputs) = g₁.visitCalls recompute inputs id := by
    rw [executeCalls, horder, visitAllCalls_append hfirst, visitAllCalls, hvisit, callsTo_append,
      callsTo_append, callsTo_visitCalls, if_pos rfl, callsTo_visitAllCalls_of_not_mem hpre,
      callsTo_visitAllCalls_of_not_mem hpost, List.nil_append, List.append_nil]
  have hlater := later_visitAll recompute inputs pre g .empty
  rw [hfirst] at hlater
  exact ⟨g₁, r₁, r₂, g₂, hcalls ▸ turnIn_of_order hg horder hfirst hvisit hafter,
    hlater.defaultRetry_eq⟩

/-- **What becomes of a node in a walk.** -/
theorem exists_fares {n : Node} (hg : g.WellFormed)
    (h : g.execute recompute inputs = (some r, g')) (hn : g.node? id = some n) :
    ∃ n', g'.node? id = some n' ∧ Fares g.defaultRetry (g.selected recompute id) n
      (callsTo id (g.executeCalls recompute inputs)) n' := by
  obtain ⟨g₁, r₁, r₂, g₂, hturn, hdefault⟩ := exists_turnIn_callsTo hg h (mem_ids_iff.2 ⟨n, hn⟩)
  have hbefore := hturn.before
  rw [hn] at hbefore
  obtain ⟨n₁, hn₁, hcore₁⟩ := Option.map_eq_some_iff.1 hbefore
  obtain ⟨n₂, hn₂, hfares⟩ := hturn.turn.fares hn₁
  have hafter := hturn.after
  rw [hn₂] at hafter
  obtain ⟨n', hn', hcore'⟩ := Option.map_eq_some_iff.1 hafter
  rw [hdefault, selected_congr hturn.before hdefault] at hfares
  exact ⟨n', hn', hfares.of_core hcore₁.symm hcore'⟩

/-- **A selected node is not run exactly if a node that it depended on has failed in the end.** -/
theorem callsTo_eq_nil_iff (hg : g.WellFormed) (h : g.execute recompute inputs = (some r, g'))
    (hid : g.selected recompute id = true) :
    callsTo id (g.executeCalls recompute inputs) = [] ↔
      ∃ d, g.DependsOn id d ∧ g'.hasFailed d = true := by
  obtain ⟨n, hn, -⟩ := (Option.any_eq_true _ _).1 hid
  obtain ⟨g₁, r₁, r₂, g₂, hturn, hdefault⟩ := exists_turnIn_callsTo hg h (mem_ids_iff.2 ⟨n, hn⟩)
  have hdependencies : g₁.dependenciesOf id = g.dependenciesOf id :=
    dependenciesOf_congr hturn.before
  rw [← selected_congr hturn.before hdefault] at hid
  generalize callsTo id (g.executeCalls recompute inputs) = calls at hturn
  cases hturn.turn with
  | skipped hnot =>
    obtain ⟨m, hm, hselects⟩ := (Option.any_eq_true _ _).1 hid
    exact absurd ((hnot m hm).symm.trans hselects) Bool.false_ne_true
  | @blocked m d hm _ hfind =>
    have hd : g.DependsOn id d := by
      rw [DependsOn, ← hdependencies, dependenciesOf_eq hm]
      exact List.mem_of_find?_eq_some hfind
    exact ⟨fun _ => ⟨d, hd, (hturn.hasFailed_eq d hd).trans (List.find?_some hfind)⟩, fun _ => rfl⟩
  | @ran m _ _ _ hm _ hclear hcalls =>
    have hne : calls ≠ [] := hcalls ▸ attemptCalls_ne_nil (Node.tries_ne_zero _ _)
    refine ⟨fun hnil => absurd hnil hne, ?_⟩
    rintro ⟨d, hd, hfailed⟩
    have hmem : d ∈ m.dependencies := by rwa [← dependenciesOf_eq hm, hdependencies]
    exact absurd ((hclear d hmem).symm.trans ((hturn.hasFailed_eq d hd).symm.trans hfailed))
      Bool.false_ne_true

/-! ## No node is left running -/

/-- No node is running. -/
def Idle (g : Graph) : Prop := ∀ id n, g.node? id = some n → n.status ≠ .running

namespace Idle

theorem of_status (h : g.Idle) (hstatus : ∀ j n', g'.node? j = some n' →
    n'.status = .pending ∨ n'.status = .completed ∨ n'.status = .error ∨
      ∃ n, g.node? j = some n ∧ n'.status = n.status) : g'.Idle := by
  intro j n' hn' hrunning
  have hcases := hstatus j n' hn'
  rw [hrunning] at hcases
  obtain ⟨n, hn, heq⟩ : ∃ n, g.node? j = some n ∧ NodeStatus.running = n.status := by
    simpa using hcases
  exact h j n hn heq.symm

theorem update (h : g.Idle) (id : NodeId) {f : Node → Node} (hf : ∀ n, (f n).status = n.status) :
    (g.update id f).Idle := by
  refine h.of_status fun j n' hn' => Or.inr (Or.inr (Or.inr ?_))
  rw [node?_update] at hn'
  split at hn'
  · obtain ⟨n, hn, rfl⟩ := Option.map_eq_some_iff.1 hn'
    exact ⟨n, hn, hf n⟩
  · exact ⟨n', hn', rfl⟩

theorem withPlaceholders (h : g.Idle) (ids : List NodeId) : (g.withPlaceholders ids).Idle := by
  refine h.of_status fun j n' hn' => ?_
  rw [node?_withPlaceholders] at hn'
  split at hn'
  · exact Or.inr (Or.inr (Or.inr ⟨n', hn', rfl⟩))
  · split at hn'
    · cases hn'
      exact Or.inl rfl
    · cases hn'

theorem register {dependencies : List NodeId} (h : g.Idle)
    (hreg : g.register id dependencies body = .ok g') : g'.Idle :=
  h.of_status fun _ _ hn' => (status_of_register hreg hn').imp_right (Or.inr ∘ Or.inr)

theorem withEdge (h : g.Idle) (id d : NodeId) : (g.withEdge id d).Idle :=
  have hnode : (g.update id (Node.addDependency d)).Idle := h.update id fun _ => rfl
  hnode.update d (f := Node.addDependent id) fun _ => rfl

theorem addDependency {d : NodeId} {isNew : Bool} (h : g.Idle)
    (hadd : g.addDependency id d = .ok (isNew, g')) : g'.Idle := by
  obtain ⟨n, -, -, -, ⟨-, -, rfl⟩ | ⟨-, -, rfl⟩⟩ := addDependency_cases hadd
  · exact h.withPlaceholders [d]
  · exact (h.withPlaceholders [d]).withEdge id d

theorem setRetry {policy : Option RetryPolicy} (h : g.Idle)
    (hset : g.setRetry id policy = .ok g') : g'.Idle := by
  rw [Graph.setRetry] at hset
  split at hset
  · cases hset
    exact h.update id fun _ => rfl
  · cases hset

theorem force (h : g.Idle) (ids : List NodeId) : (g.force ids).Idle := by
  induction ids generalizing g with
  | nil => exact h
  | cons id ids ih => exact ih (h.update id fun _ => rfl)

/-- A turn does not leave its node running, even if it breaks off. -/
theorem visit (h : g.Idle) (recompute : Option (List NodeId)) (inputs : InputTable) (id : NodeId)
    (r : Report) : (g.visit recompute inputs id r).2.Idle := by
  have hturn := visit_turn g recompute inputs id r
  refine h.of_status fun j n' hn' => ?_
  by_cases hj : j = id
  · subst hj
    by_cases hcalls : g.visitCalls recompute inputs j = []
    · rw [hcalls] at hturn
      generalize (g.visit recompute inputs j r).1 = o at hturn
      generalize (g.visit recompute inputs j r).2 = g₁ at hturn hn'
      cases hturn with
      | skipped => exact Or.inr (Or.inr (Or.inr ⟨n', hn', rfl⟩))
      | blocked hn =>
        rw [node?_update, if_pos rfl, hn] at hn'
        cases hn'
        exact Or.inr (Or.inr (Or.inl rfl))
      | ran _ _ _ hnil => exact absurd hnil.symm (attemptCalls_ne_nil (Node.tries_ne_zero _ _))
    · obtain ⟨m, hm, hstatus⟩ := status_visit (r := r) hcalls
      obtain rfl := Option.some.inj (hm.symm.trans hn')
      rw [endStatus] at hstatus
      split at hstatus
      · exact Or.inr (Or.inl hstatus)
      · exact Or.inr (Or.inr (Or.inl hstatus))
  · have hcore := hturn.keeps.core_eq j hj
    rw [hn'] at hcore
    obtain ⟨n, hn, hcore⟩ := Option.map_eq_some_iff.1 hcore.symm
    exact Or.inr (Or.inr (Or.inr ⟨n, hn, (congrArg Node.status hcore.symm :)⟩))

theorem visitAll (h : g.Idle) (recompute : Option (List NodeId)) (inputs : InputTable)
    (ids : List NodeId) (r : Report) : (Graph.visitAll recompute inputs ids g r).2.Idle := by
  induction ids generalizing g r with
  | nil => exact h
  | cons id ids ih =>
    have hnext := h.visit recompute inputs id r
    rw [Graph.visitAll]
    split
    · rename_i hvisit
      rwa [hvisit] at hnext
    · rename_i hvisit
      rw [hvisit] at hnext
      exact ih hnext _

end Idle

theorem Reachable.idle (h : Reachable g) : g.Idle := by
  induction h with
  | empty retry timeout => exact fun _ _ hn => nomatch hn
  | register _ hreg ih => exact ih.register hreg
  | addDependency _ hadd ih => exact ih.addDependency hadd
  | setRetry _ hset ih => exact ih.setRetry hset
  | force ids _ ih => exact ih.force ids
  | execute recompute inputs _ ih => exact ih.visitAll recompute inputs _ _
  | reset => exact fun _ _ hn => nomatch hn

/-! ## The account of a walk -/

/-- A walk has done what was selected, and nothing else. -/
structure DoesSelection (g : Graph) (recompute : Option (List NodeId)) (calls : List Call)
    (r : Report) (g' : Graph) : Prop where
  /-- No node is listed twice. -/
  nodup : (r.executed ++ r.failed ++ r.blocked).Nodup
  /-- The nodes that are listed are the selected ones. -/
  mem_iff : ∀ id, id ∈ r.executed ++ r.failed ++ r.blocked ↔ g.Due recompute id
  /-- They are listed as they come in the order of execution. -/
  sublist_order : ∀ l, (r.listed l).Sublist g.order
  /-- No node is listed before one that it depends on. -/
  pairwise : ∀ l, (r.listed l).Pairwise fun a b => ¬ TransGen g.DependsOn a b
  /-- A selected node is blocked if one of its dependencies has failed in the end. -/
  mem_blocked_iff : ∀ id, g.Due recompute id →
    (id ∈ r.blocked ↔ ∃ d, g.DependsOn id d ∧ g'.hasFailed d = true)
  /-- It is the bodies of the nodes that ran which are called. -/
  of_call : ∀ c ∈ calls, (c.visit.node ∈ r.executed ∨ c.visit.node ∈ r.failed) ∧
    ∃ n, g.node? c.visit.node = some n ∧ c.outcome = n.body c.visit
  /-- The body of an executed node is called until it completes for the first time. -/
  of_executed : ∀ id ∈ r.executed, ∀ n, g.node? id = some n →
    (callsTo id calls).length ≤ n.tries g.defaultRetry ∧
    ∃ before last, callsTo id calls = before ++ [last] ∧ (∀ c ∈ before, c.completes = false) ∧
      last.completes = true
  /-- The body of a failed node is called in vain as often as its policy allows. -/
  of_failed : ∀ id ∈ r.failed, ∀ n, g.node? id = some n →
    (callsTo id calls).length = n.tries g.defaultRetry ∧ ∀ c ∈ callsTo id calls, c.completes = false
  /-- Every call is an attempt; attempts are counted in thirty-two bits. -/
  attempts_eq : ∀ id n, g.node? id = some n →
    ∃ n', g'.node? id = some n' ∧
      n'.attempts.val = (n.attempts.val + (callsTo id calls).length) % Node.countBound
  /-- Executed nodes have completed. -/
  status_of_executed : ∀ id ∈ r.executed, ∀ n', g'.node? id = some n' → n'.status = .completed
  /-- The others that are listed have failed. -/
  status_of_not_executed : ∀ id ∈ r.failed ++ r.blocked, ∀ n', g'.node? id = some n' →
    n'.status = .error
  /-- No node is left running. -/
  idle : g'.Idle
  /-- No node is left to run in any case. -/
  force_eq : ∀ id n', g'.node? id = some n' → n'.force = false

/-- Where the report of a walk puts a node. -/
theorem mem_listed_iff (hg : g.WellFormed) (h : g.execute recompute inputs = (some r, g'))
    {l : Listing} : id ∈ r.listed l ↔
      listOf (g.selected recompute id) (callsTo id (g.executeCalls recompute inputs)) = some l := by
  rw [visitAll_listed hg.nodup_order h l, show Report.empty.listed l = [] by cases l <;> rfl,
    List.nil_append, List.mem_filter, decide_eq_true_eq, ← executeCalls]
  refine and_iff_right_of_imp fun hlist => hg.mem_order_iff.2 (mem_ids_iff.2 ?_)
  cases hn : g.node? id with
  | some n => exact ⟨n, rfl⟩
  | none =>
    have hid : id ∉ g.order := fun hid => node?_eq_none_iff.1 hn (hg.mem_order_iff.1 hid)
    rw [executeCalls, callsTo_visitAllCalls_of_not_mem hid, selected, hn] at hlist
    cases hlist

theorem sublist_listed (hg : g.WellFormed) (h : g.execute recompute inputs = (some r, g'))
    (l : Listing) : (r.listed l).Sublist g.order := by
  rw [visitAll_listed hg.nodup_order h l, show Report.empty.listed l = [] by cases l <;> rfl,
    List.nil_append]
  exact List.filter_sublist

/-- In the order of execution no node stands before one that it depends on. -/
theorem WellFormed.pairwise_order (h : g.WellFormed) :
    g.order.Pairwise fun a b => ¬ TransGen g.DependsOn a b := by
  have hpairwise : ∀ rest pre, g.Lists [] (pre ++ rest) →
      rest.Pairwise fun a b => ¬ TransGen g.DependsOn a b := by
    intro rest
    induction rest with
    | nil => exact fun _ _ => List.Pairwise.nil
    | cons a rest ih =>
      intro pre hlists
      rw [List.append_cons] at hlists
      refine List.pairwise_cons.2 ⟨fun b hb hab => ?_, ih _ hlists⟩
      have hmem := hlists.mem_of_dependsOn (List.mem_append_right _ List.mem_cons_self) hab
      exact (List.nodup_append.1 hlists.nodup).2.2 b hmem b hb rfl
  exact hpairwise g.order [] h.lists_order

section Lists

variable {selected : Bool}

theorem listOf_eq_executed_iff :
    listOf selected calls = some .executed ↔ calls.any Call.completes = true := by
  rw [listOf]
  by_cases hcalls : calls = []
  · cases selected <;> simp [hcalls]
  · cases calls.any Call.completes <;> simp [hcalls]

theorem listOf_eq_failed_iff : listOf selected calls = some .failed ↔
    calls ≠ [] ∧ calls.any Call.completes = false := by
  rw [listOf]
  by_cases hcalls : calls = []
  · cases selected <;> simp [hcalls]
  · cases calls.any Call.completes <;> simp [hcalls]

theorem listOf_eq_blocked_iff :
    listOf selected calls = some .blocked ↔ calls = [] ∧ selected = true := by
  rw [listOf]
  by_cases hcalls : calls = []
  · cases selected <;> simp [hcalls]
  · cases calls.any Call.completes <;> simp [hcalls]

theorem listOf_eq_none_iff (h : calls ≠ [] → selected = true) :
    listOf selected calls = none ↔ selected = false := by
  rw [listOf]
  by_cases hcalls : calls = []
  · cases selected <;> simp [hcalls]
  · cases calls.any Call.completes <;> simp [hcalls, h hcalls]

end Lists

/-- Calls of which only the last can have completed, when one of them has. -/
theorem exists_last_of_any (hbefore : ∀ c ∈ calls.dropLast, c.completes = false)
    (hany : calls.any Call.completes = true) :
    ∃ before last, calls = before ++ [last] ∧ (∀ c ∈ before, c.completes = false) ∧
      last.completes = true := by
  obtain ⟨c, hc, hcompletes⟩ := List.any_eq_true.1 hany
  have hne : calls ≠ [] := List.ne_nil_of_mem hc
  have hsplit := (List.dropLast_append_getLast hne).symm
  refine ⟨_, _, hsplit, hbefore, ?_⟩
  rw [hsplit] at hc
  rcases List.mem_append.1 hc with hc | hc
  · exact absurd ((hbefore c hc).symm.trans hcompletes) Bool.false_ne_true
  · exact List.mem_singleton.1 hc ▸ hcompletes

theorem mem_lists_iff : id ∈ r.executed ++ r.failed ++ r.blocked ↔ ∃ l, id ∈ r.listed l := by
  rw [List.mem_append, List.mem_append, or_assoc]
  constructor
  · rintro (hid | hid | hid)
    · exact ⟨.executed, hid⟩
    · exact ⟨.failed, hid⟩
    · exact ⟨.blocked, hid⟩
  · rintro ⟨l, hid⟩
    cases l with
    | executed => exact Or.inl hid
    | failed => exact Or.inr (Or.inl hid)
    | blocked => exact Or.inr (Or.inr hid)

section Account

variable (hg : g.WellFormed) (h : g.execute recompute inputs = (some r, g'))
include hg h

/-- Where a node comes from that has been through a walk. -/
theorem exists_fares_after {n' : Node} (hn' : g'.node? id = some n') :
    ∃ n, g.node? id = some n ∧ Fares g.defaultRetry (g.selected recompute id) n
      (callsTo id (g.executeCalls recompute inputs)) n' := by
  obtain ⟨n, hn⟩ := mem_ids_iff.1 ((later_execute h).ids_eq ▸ mem_ids_iff.2 ⟨n', hn'⟩)
  obtain ⟨m, hm, hfares⟩ := exists_fares hg h hn
  obtain rfl := Option.some.inj (hm.symm.trans hn')
  exact ⟨n, hn, hfares⟩

theorem selected_of_callsTo (hcalled : callsTo id (g.executeCalls recompute inputs) ≠ []) :
    g.selected recompute id = true := by
  obtain ⟨c, hc⟩ := List.exists_mem_of_ne_nil _ hcalled
  obtain ⟨hc, hnode⟩ := List.mem_filter.1 hc
  obtain ⟨n, hn, -⟩ := exists_body_of_mem_visitAllCalls hc
  rw [beq_iff_eq.1 hnode] at hn
  obtain ⟨n', -, hfares⟩ := exists_fares hg h hn
  exact hfares.selected_of_calls hcalled

theorem mem_executed_iff : id ∈ r.executed ↔
    (callsTo id (g.executeCalls recompute inputs)).any Call.completes = true :=
  (mem_listed_iff hg h (l := .executed)).trans listOf_eq_executed_iff

theorem mem_failed_iff : id ∈ r.failed ↔ callsTo id (g.executeCalls recompute inputs) ≠ [] ∧
    (callsTo id (g.executeCalls recompute inputs)).any Call.completes = false :=
  (mem_listed_iff hg h (l := .failed)).trans listOf_eq_failed_iff

theorem mem_blocked_iff : id ∈ r.blocked ↔
    callsTo id (g.executeCalls recompute inputs) = [] ∧ g.selected recompute id = true :=
  (mem_listed_iff hg h (l := .blocked)).trans listOf_eq_blocked_iff

theorem mem_lists_iff_selected :
    id ∈ r.executed ++ r.failed ++ r.blocked ↔ g.selected recompute id = true := by
  rw [mem_lists_iff, ← Bool.not_eq_false, ← listOf_eq_none_iff (selected_of_callsTo hg h),
    ← Ne, Option.ne_none_iff_exists']
  exact exists_congr fun l => mem_listed_iff hg h

theorem nodup_lists : (r.executed ++ r.failed ++ r.blocked).Nodup := by
  have hnodup : ∀ l, (r.listed l).Nodup := fun l => (sublist_listed hg h l).nodup hg.nodup_order
  have hdisjoint : ∀ l l', l ≠ l' → (r.listed l).Disjoint (r.listed l') :=
    fun l l' hne id hid hid' => hne (Option.some.inj
      (((mem_listed_iff hg h).1 hid).symm.trans ((mem_listed_iff hg h).1 hid')))
  have hfirst := (hnodup .executed).append (hnodup .failed) (hdisjoint _ _ nofun)
  refine hfirst.append (hnodup .blocked) (List.disjoint_append_left.2 ⟨?_, ?_⟩)
  · exact hdisjoint .executed .blocked nofun
  · exact hdisjoint .failed .blocked nofun

/-- A body that was called is that of a node that completed or failed. -/
theorem mem_executed_or_failed {c : Call} (hc : c ∈ g.executeCalls recompute inputs) :
    c.visit.node ∈ r.executed ∨ c.visit.node ∈ r.failed := by
  rw [mem_executed_iff hg h, mem_failed_iff hg h]
  cases (callsTo c.visit.node (g.executeCalls recompute inputs)).any Call.completes with
  | true => exact Or.inl rfl
  | false => exact Or.inr ⟨List.ne_nil_of_mem (List.mem_filter.2 ⟨hc, beq_self_eq_true _⟩), rfl⟩

theorem status_of_mem_executed (hid : id ∈ r.executed) {n' : Node} (hn' : g'.node? id = some n') :
    n'.status = .completed := by
  obtain ⟨n, -, hfares⟩ := exists_fares_after hg h hn'
  have hany := (mem_executed_iff hg h).1 hid
  have hcalled : callsTo id (g.executeCalls recompute inputs) ≠ [] := fun hnil => by
    rw [hnil] at hany
    cases hany
  rw [hfares.status_eq, selected_of_callsTo hg h hcalled, if_pos rfl, endStatus, if_pos hany]

theorem status_of_mem_failed_or_blocked (hid : id ∈ r.failed ++ r.blocked) {n' : Node}
    (hn' : g'.node? id = some n') : n'.status = .error := by
  obtain ⟨n, -, hfares⟩ := exists_fares_after hg h hn'
  have hany : (callsTo id (g.executeCalls recompute inputs)).any Call.completes = false ∧
      g.selected recompute id = true := by
    rcases List.mem_append.1 hid with hid | hid
    · obtain ⟨hcalled, hany⟩ := (mem_failed_iff hg h).1 hid
      exact ⟨hany, selected_of_callsTo hg h hcalled⟩
    · obtain ⟨hnil, hselected⟩ := (mem_blocked_iff hg h).1 hid
      exact ⟨by rw [hnil]; rfl, hselected⟩
  rw [hfares.status_eq, hany.2, if_pos rfl, endStatus, hany.1]
  rfl

theorem force_after {n' : Node} (hn' : g'.node? id = some n') : n'.force = false := by
  obtain ⟨n, hn, hfares⟩ := exists_fares_after hg h hn'
  rw [hfares.force_eq]
  split
  · rfl
  · -- A forced node would be selected.
    rename_i hnot
    rw [selected_eq hn] at hnot
    cases recompute with
    | none => exact absurd rfl hnot
    | some ids =>
      rw [Bool.eq_false_iff]
      exact fun hforce => hnot (by simp [selects, hforce])

end Account

/-- **A walk that comes to its end does exactly what was selected**, whatever the bodies of the
nodes are, in every graph that can be built. -/
theorem execute_does_its_selection (hg : Reachable g)
    (h : g.execute recompute inputs = (some r, g')) :
    g.DoesSelection recompute (g.executeCalls recompute inputs) r g' := by
  have hwell := hg.wellFormed
  exact {
    nodup := nodup_lists hwell h
    mem_iff := fun id => (mem_lists_iff_selected hwell h).trans selected_iff_due
    sublist_order := sublist_listed hwell h
    pairwise := fun l => hwell.pairwise_order.sublist (sublist_listed hwell h l)
    mem_blocked_iff := fun id hid => by
      rw [Graph.mem_blocked_iff hwell h, ← callsTo_eq_nil_iff hwell h (selected_iff_due.2 hid)]
      exact and_iff_left (selected_iff_due.2 hid)
    of_call := fun c hc => ⟨mem_executed_or_failed hwell h hc, exists_body_of_mem_visitAllCalls hc⟩
    of_executed := fun id hid n hn => by
      obtain ⟨n', -, hfares⟩ := exists_fares hwell h hn
      exact ⟨hfares.length_le,
        exists_last_of_any hfares.failed_before ((mem_executed_iff hwell h).1 hid)⟩
    of_failed := fun id hid n hn => by
      obtain ⟨n', -, hfares⟩ := exists_fares hwell h hn
      obtain ⟨hcalled, hany⟩ := (mem_failed_iff hwell h).1 hid
      exact ⟨hfares.length_eq hcalled hany, by simpa using hany⟩
    attempts_eq := fun id n hn => by
      obtain ⟨n', hn', hfares⟩ := exists_fares hwell h hn
      exact ⟨n', hn', hfares.attempts_eq⟩
    status_of_executed := fun id hid n' hn' => status_of_mem_executed hwell h hid hn'
    status_of_not_executed := fun id hid n' hn' => status_of_mem_failed_or_blocked hwell h hid hn'
    idle := by
      have hidle := hg.idle.visitAll recompute inputs g.order .empty
      rwa [← execute, h] at hidle
    force_eq := fun id n' hn' => force_after hwell h hn' }

/-- Four nodes that have run: the first fails and now has a retry policy, the second depends on it,
and the third is to run in any case. -/
def mixedGraph : Except GraphError Graph := do
  let g ← (empty none none).registerAll
    [(⟨"a"⟩, [], .failing "no"), (⟨"b"⟩, [⟨"a"⟩], .constant .null), (⟨"c"⟩, [], .constant .null),
      (⟨"d"⟩, [], .constant .null)]
  let g ← (g.execute none []).2.setRetry ⟨"a"⟩ (some ⟨1, .ofMillis 1, 1⟩)
  .ok (g.force [⟨"c"⟩])

/-- The theorem applies to a walk over the second of four nodes, in which one node fails again, one
is blocked, one is executed, and one is left alone. -/
theorem execute_does_its_selection_of_four :
    ∃ g r g', mixedGraph = .ok g ∧ Reachable g ∧ g.execute (some [⟨"b"⟩]) [] = (some r, g') ∧
      r.executed = [⟨"c"⟩] ∧ r.failed = [⟨"a"⟩] ∧ r.blocked = [⟨"b"⟩] ∧
      g.DoesSelection (some [⟨"b"⟩]) (g.executeCalls (some [⟨"b"⟩]) []) r g' := by
  obtain ⟨g, hbuilt, htest⟩ := exists_built_of_any mixedGraph
    (fun g => (g.execute (some [⟨"b"⟩]) []).1.any fun r =>
      r.executed == [⟨"c"⟩] && r.failed == [⟨"a"⟩] && r.blocked == [⟨"b"⟩]) (by decide +kernel)
  obtain ⟨r, hr, htest⟩ := (Option.any_eq_true _ _).1 htest
  simp only [Bool.and_eq_true, beq_iff_eq] at htest
  obtain ⟨⟨hexecuted, hfailed⟩, hblocked⟩ := htest
  have hg : Reachable g := by
    obtain ⟨g₀, hreg, hrest⟩ := exists_of_bind hbuilt
    obtain ⟨g₁, hset, hforce⟩ := exists_of_bind hrest
    cases hforce
    exact (((Reachable.registerAll (.empty none none) hreg).execute none []).setRetry hset).force _
  have hwalk : g.execute (some [⟨"b"⟩]) [] = (some r, _) := Prod.ext hr rfl
  exact ⟨g, r, _, hbuilt, hg, hwalk, hexecuted, hfailed, hblocked,
    execute_does_its_selection hg hwalk⟩

end Graph

end ReactiveScript

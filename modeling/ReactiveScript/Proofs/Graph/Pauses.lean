import ReactiveScript.Proofs.Graph.Latest

/-!
# Pauses that do not fit a duration

Between two attempts at a failing node there is a pause: the delay of its retry policy times a power
of the backoff.  The power is replaced if it is not finite, but the product is not looked at, and a
pause that is too long for a duration breaks the walk off in the middle: the nodes behind have no
turn, and there is no report.

* `RetryPolicy.Unfailing` — the policies whose pauses fit: a single attempt, no delay, or a backoff
  that is negative, infinite or no number.
* `Graph.attempt_eq_none_iff` — the attempts at a node break off at the first pause that does not
  fit.
* `Graph.StuckAt` — what the calls of a walk show when it has broken off at a node.
* `Graph.execute_breaks_off_iff_stuck` — the theorem.
-/

set_option autoImplicit false

namespace ReactiveScript

open Float.Model

/-! ## Powers of the backoff -/

namespace Number

/-- The number that is larger than all others. -/
def infinity : Float := 1 / 0

theorem mul_eq (x y : Float) :
    x * y = .ofModel (.pack (.mul .binary64 x.toModel.unpack y.toModel.unpack)) := rfl

/-- What the products of a computation by repeated squaring have in common. -/
theorem squaring_induction {P Q : Float → Prop} (hmul : ∀ acc a, P acc → Q a → P (acc * a))
    (hsquare : ∀ a, Q a → Q (a * a)) {acc a : Float} (hacc : P acc) (ha : Q a) (n : Nat) :
    P (squaring acc a n) := by
  induction n using Nat.strongRecOn generalizing acc a with
  | ind n ih =>
    have hnext : P (if n % 2 = 1 then acc * a else acc) := by
      split
      · exact hmul acc a hacc ha
      · exact hacc
    rw [squaring]
    split
    · exact hnext
    · exact ih (n / 2) (by omega) hnext (hsquare a ha)

/-- A power of zero is zero or one, and infinity if the exponent is negative. -/
theorem power_zero_base (n : Int) : power 0 n = 0 ∨ power 0 n = 1 ∨ power 0 n = infinity := by
  have hpower : squaring 1 0 n.natAbs = 0 ∨ squaring 1 0 n.natAbs = 1 := by
    refine squaring_induction (P := fun acc => acc = 0 ∨ acc = 1) (Q := fun a => a = 0) ?_ ?_
      (.inr rfl) rfl n.natAbs
    · rintro acc a (rfl | rfl) rfl
      · exact .inl rfl
      · exact .inl rfl
    · rintro a rfl
      rfl
  rw [power]
  split
  · rcases hpower with hpower | hpower <;> rw [hpower]
    · exact .inr (.inr rfl)
    · exact .inr (.inl rfl)
  · exact hpower.imp_right .inl

/-- A power of infinity is infinity or one, and zero if the exponent is negative. -/
theorem power_infinite_base {a : Float} (ha : a.toModel.unpack = .infinity .positive) (n : Int) :
    power a n = 0 ∨ power a n = 1 ∨ power a n = infinity := by
  have hpower : squaring 1 a n.natAbs = 1 ∨ squaring 1 a n.natAbs = infinity := by
    refine squaring_induction (P := fun acc => acc = 1 ∨ acc = infinity)
      (Q := fun a => a.toModel.unpack = .infinity .positive) ?_ ?_ (.inl rfl) ha n.natAbs
    · intro acc a hacc ha
      refine .inr ?_
      rw [mul_eq, ha]
      rcases hacc with rfl | rfl <;> rfl
    · intro a ha
      rw [mul_eq, ha]
      rfl
  rw [power]
  split
  · rcases hpower with hpower | hpower <;> rw [hpower]
    · exact .inr (.inl rfl)
    · exact .inl rfl
  · exact .inr hpower

end Number

/-! ## Pauses -/

namespace RetryPolicy

variable {p : RetryPolicy}

theorem isFinite_factor (p : RetryPolicy) (failed : Nat) : (p.factor failed).isFinite = true := by
  rw [factor]
  generalize Number.power _ _ = f
  split
  · assumption
  · rfl

/-- The first pause is the delay. -/
theorem factor_one (p : RetryPolicy) : p.factor 1 = 1 := by
  have hpower : ∀ a, Number.power a (exponent 1) = 1 := by
    intro a
    rw [show exponent 1 = 0 from rfl, Number.power, Number.squaring]
    simp
  rw [factor, hpower]
  rfl

/-- Zero seconds are a duration, with either sign. -/
theorem ofSeconds?_zero (s : UnpackedFloat.Sign) :
    Duration.ofSeconds? (.ofModel (.pack (.zero s))) = some ⟨0⟩ := by
  cases s <;> decide +kernel

/-- An infinity is not a duration. -/
theorem ofSeconds?_infinity (s : UnpackedFloat.Sign) :
    Duration.ofSeconds? (.ofModel (.pack (.infinity s))) = none := by
  cases s <;> rfl

/-- Without a delay there are no pauses. -/
theorem delayAfter_of_no_delay (h : p.delay.nanos.val = 0) (failed : Nat) :
    p.delayAfter failed = some ⟨0⟩ := by
  have hdelay : p.delay.seconds = 0 := by
    rw [show p.delay = ⟨0⟩ from congrArg Duration.mk (Fin.ext h)]
    rfl
  have hfinite := p.isFinite_factor failed
  rw [Float.isFinite, Float.Model.isFinite] at hfinite
  rw [delayAfter, Duration.scale?, hdelay, Number.mul_eq]
  cases hfactor : (p.factor failed).toModel.unpack with
  | notANumber | infinity _ =>
    rw [hfactor] at hfinite
    cases hfinite
  | zero _ | finite _ _ _ _ => exact ofSeconds?_zero _

/-- A backoff that is not a positive finite number multiplies the delay by zero or one. -/
theorem factor_of_extreme (h : ¬ 0 < p.backoff ∨ p.backoff.isFinite = false) (failed : Nat) :
    p.factor failed = 0 ∨ p.factor failed = 1 := by
  have hpower : ∀ n, Number.power (if 0 < p.backoff then p.backoff else 0) n = 0 ∨
      Number.power (if 0 < p.backoff then p.backoff else 0) n = 1 ∨
      Number.power (if 0 < p.backoff then p.backoff else 0) n = Number.infinity := by
    intro n
    by_cases hpositive : 0 < p.backoff
    · rw [if_pos hpositive]
      have hinfinite := h.resolve_left (not_not_intro hpositive)
      rw [Float.isFinite, Float.Model.isFinite] at hinfinite
      have hpositive : UnpackedFloat.lt (.zero .positive) p.backoff.toModel.unpack = true :=
        of_decide_eq_true hpositive
      refine Number.power_infinite_base ?_ n
      cases hbackoff : p.backoff.toModel.unpack with
      | infinity s =>
        rw [hbackoff] at hpositive
        cases s
        · cases hpositive
        · rfl
      | notANumber =>
        rw [hbackoff] at hpositive
        cases hpositive
      | zero s | finite s m e hm =>
        rw [hbackoff] at hinfinite
        cases hinfinite
    · rw [if_neg hpositive]
      exact Number.power_zero_base n
  rw [factor]
  rcases hpower (exponent failed) with hpower | hpower | hpower <;> rw [hpower]
  · exact .inl rfl
  · exact .inr rfl
  · exact .inr rfl

/-- Such a pause fits if the first one does. -/
theorem delayAfter_of_extreme (h : ¬ 0 < p.backoff ∨ p.backoff.isFinite = false)
    (hfirst : (p.delayAfter 1).isSome = true) (failed : Nat) :
    (p.delayAfter failed).isSome = true := by
  rw [delayAfter, factor_one] at hfirst
  rw [delayAfter]
  rcases p.factor_of_extreme h failed with hzero | hone
  · rw [hzero]
    rw [Duration.scale?, Number.mul_eq] at hfirst ⊢
    cases hdelay : p.delay.seconds.toModel.unpack with
    | notANumber =>
      rw [hdelay] at hfirst
      cases hfirst
    | infinity s =>
      rw [hdelay] at hfirst
      cases (congrArg Option.isSome (ofSeconds?_infinity _)).symm.trans hfirst
    | zero _ | finite _ _ _ _ => exact congrArg Option.isSome (ofSeconds?_zero _)
  · rwa [hone]

/-- All pauses of the policy fit a duration: there are none, they take no time, or none is longer
than the first, which fits. -/
def Unfailing (p : RetryPolicy) : Prop :=
  p.maxAttempts ≤ 1 ∨ p.delay.nanos.val = 0 ∨
    ((¬ 0 < p.backoff ∨ p.backoff.isFinite = false) ∧ (p.delayAfter 1).isSome = true)

theorem Unfailing.isSome_delayAfter (h : p.Unfailing) {failed : Nat} (hpos : 0 < failed)
    (hlt : failed < p.maxAttempts) : (p.delayAfter failed).isSome = true := by
  rcases h with hsingle | hzero | ⟨hextreme, hfirst⟩
  · omega
  · rw [delayAfter_of_no_delay hzero]
    rfl
  · exact delayAfter_of_extreme hextreme hfirst failed

end RetryPolicy

namespace Graph

variable {g g' : Graph} {recompute : Option (List NodeId)} {inputs : InputTable} {id : NodeId}
  {body : Body} {args : List Value} {fits : Nat → Bool} {left failures : Nat} {r : Report}
  {calls : List Call}

/-! ## Attempts -/

/-- **The attempts at a node break off at the first pause that does not fit**: all calls have failed,
and there is to be another one. -/
theorem attempt_eq_none_iff :
    (attempt inputs id body args fits left failures g r).1 = none ↔
      (∀ c ∈ attemptCalls inputs id body args fits left failures g, c.completes = false) ∧
        (attemptCalls inputs id body args fits left failures g).length < left ∧
        fits (failures + (attemptCalls inputs id body args fits left failures g).length)
          = false := by
  induction left generalizing failures g r with
  | zero =>
    exact ⟨fun h => absurd h (Option.some_ne_none _), fun h => absurd h.2.1 (Nat.not_lt_zero _)⟩
  | succ left ih =>
    rw [attempt, attemptCalls]
    simp only [visitOf]
    generalize hvisit : (⟨id, args, _, inputs, _, _⟩ : Visit) = visit
    have hlimit : visit.limit = (g.update id Node.called).nodeTimeout := by rw [← hvisit]
    generalize g.update id Node.called = g₁ at *
    cases hresult : (body visit).result g₁.nodeTimeout with
    | ok v =>
      have hcompletes : Call.completes ⟨visit, body visit⟩ = true :=
        Call.completes_iff.2 ⟨v, by rw [Call.result, hlimit, hresult]⟩
      refine ⟨fun h => absurd h (Option.some_ne_none _), fun h => ?_⟩
      cases (h.1 _ List.mem_cons_self).symm.trans hcompletes
    | error e =>
      have hfails : Call.completes ⟨visit, body visit⟩ = false := by
        rw [Call.completes, Call.result, hlimit, hresult]
      simp only [List.forall_mem_cons, List.length_cons, hfails, true_and]
      by_cases hzero : left = 0
      · rw [if_pos hzero, if_pos hzero]
        refine ⟨fun h => absurd h (Option.some_ne_none _), fun h => ?_⟩
        have hlt := h.2.1
        rw [List.length_nil] at hlt
        omega
      · rw [if_neg hzero, if_neg hzero]
        by_cases hfits : fits (failures + 1) = true
        · rw [if_pos hfits, if_pos hfits, ih, Nat.add_lt_add_iff_right, Nat.add_assoc,
            Nat.add_comm 1]
        · rw [if_neg hfits, if_neg hfits]
          refine ⟨fun _ => ⟨List.forall_mem_nil _, ?_, ?_⟩, fun _ => rfl⟩
          · rw [List.length_nil]
            omega
          · simpa using hfits

/-- What becomes of a node whose body has been called. -/
def endStatus (calls : List Call) : NodeStatus :=
  if calls.any Call.completes then .completed else .error

/-- A node is completed after the attempts if the last call completed, and has failed otherwise,
even if the attempts break off. -/
theorem status_attempt {n : Node} (hn : g.node? id = some n) (hleft : left ≠ 0) :
    ∃ n', (attempt inputs id body args fits left failures g r).2.node? id = some n' ∧
      n'.status = endStatus (attemptCalls inputs id body args fits left failures g) := by
  induction left generalizing failures g r n with
  | zero => exact absurd rfl hleft
  | succ left ih =>
    rw [attempt, attemptCalls]
    simp only [visitOf]
    generalize hvisit : (⟨id, args, _, inputs, _, _⟩ : Visit) = visit
    have hlimit : visit.limit = (g.update id Node.called).nodeTimeout := by rw [← hvisit]
    have hcalled : (g.update id Node.called).node? id = some n.called := by
      rw [node?_update, if_pos rfl, hn]
      rfl
    generalize g.update id Node.called = g₁ at *
    cases hresult : (body visit).result g₁.nodeTimeout with
    | ok v =>
      have hcompletes : Call.completes ⟨visit, body visit⟩ = true :=
        Call.completes_iff.2 ⟨v, by rw [Call.result, hlimit, hresult]⟩
      obtain ⟨ds, hds, -⟩ := node?_complete hcalled v (body visit).footprint
      refine ⟨_, hds, ?_⟩
      simp only [endStatus, List.any_cons, hcompletes, Bool.true_or, if_true]
      rfl
    | error e =>
      have hfails : Call.completes ⟨visit, body visit⟩ = false := by
        rw [Call.completes, Call.result, hlimit, hresult]
      have hfailed : (g₁.update id (Node.failed (body visit).footprint.elapsed e)).node? id
          = some (n.called.failed (body visit).footprint.elapsed e) := by
        rw [node?_update, if_pos rfl, hcalled]
        rfl
      simp only [endStatus, List.any_cons, hfails, Bool.false_or]
      by_cases hzero : left = 0
      · rw [if_pos hzero, if_pos hzero]
        refine ⟨(n.called.failed (body visit).footprint.elapsed e).settle, ?_, rfl⟩
        rw [node?_update, if_pos rfl, hfailed]
        rfl
      · rw [if_neg hzero, if_neg hzero]
        split
        · exact ih hfailed hzero
        · exact ⟨_, hfailed, rfl⟩

/-! ## Walks -/

/-- The retry policy of a node: its own, or else that of the graph. -/
def policy? (g : Graph) (id : NodeId) : Option RetryPolicy :=
  (g.node? id).bind fun n => n.retry.or g.defaultRetry

theorem Later.policy?_eq (h : g.Later g') (id : NodeId) : g'.policy? id = g.policy? id := by
  rw [policy?, policy?, h.defaultRetry_eq]
  cases hn : g.node? id with
  | some n =>
    obtain ⟨n', hn', -, -, hretry⟩ := h.node? id n hn
    rw [hn', Option.bind_some, Option.bind_some, hretry]
  | none =>
    have hmissing : g'.node? id = none := by
      rw [← Option.not_isSome_iff_eq_none, Option.isSome_iff_exists, ← mem_ids_iff, h.ids_eq,
        mem_ids_iff, hn]
      simp
    rw [hmissing]

/-- The calls of the body of a node. -/
def callsTo (id : NodeId) (calls : List Call) : List Call := calls.filter (·.visit.node == id)

/-- A walk has broken off at a node: its body was called, all these calls failed, it was to be called
again, and the pause before that does not fit a duration. -/
def StuckAt (g : Graph) (calls : List Call) (id : NodeId) : Prop :=
  ∃ p, g.policy? id = some p ∧ callsTo id calls ≠ [] ∧
    (∀ c ∈ callsTo id calls, c.completes = false) ∧
    (callsTo id calls).length < p.maxAttempts ∧ p.delayAfter (callsTo id calls).length = none

theorem StuckAt.callsTo_ne_nil {calls : List Call} (h : g.StuckAt calls id) :
    callsTo id calls ≠ [] := by
  obtain ⟨p, hp, hcalls, h⟩ := h
  exact hcalls

theorem callsTo_append (id : NodeId) (calls calls' : List Call) :
    callsTo id (calls ++ calls') = callsTo id calls ++ callsTo id calls' :=
  List.filter_append _ _

theorem callsTo_of_forall_eq (h : ∀ c ∈ calls, c.visit.node = id) : callsTo id calls = calls :=
  List.filter_eq_self.2 fun c hc => beq_iff_eq.2 (h c hc)

theorem callsTo_of_forall_ne (h : ∀ c ∈ calls, c.visit.node ≠ id) : callsTo id calls = [] :=
  List.filter_eq_nil_iff.2 fun c hc heq => h c hc (beq_iff_eq.1 heq)

theorem node_eq_of_mem_visitCalls {c : Call} (hc : c ∈ g.visitCalls recompute inputs id) :
    c.visit.node = id :=
  (visit_turn g recompute inputs id .empty).node_eq hc

theorem node_mem_of_mem_visitAllCalls {ids : List NodeId} {c : Call}
    (hc : c ∈ visitAllCalls recompute inputs ids g r) : c.visit.node ∈ ids := by
  induction ids generalizing g r with
  | nil => cases hc
  | cons id ids ih =>
    rw [visitAllCalls] at hc
    rcases List.mem_append.1 hc with hc | hc
    · exact node_eq_of_mem_visitCalls hc ▸ List.mem_cons_self
    · split at hc
      · cases hc
      · exact List.mem_cons_of_mem _ (ih hc)

/-- The calls of the body of a node are made in its turn. -/
theorem callsTo_visitCalls (g : Graph) (recompute : Option (List NodeId)) (inputs : InputTable)
    (id j : NodeId) : callsTo j (g.visitCalls recompute inputs id) =
      if j = id then g.visitCalls recompute inputs id else [] := by
  split
  · rename_i hj
    exact callsTo_of_forall_eq fun c hc => (node_eq_of_mem_visitCalls hc).trans hj.symm
  · rename_i hj
    exact callsTo_of_forall_ne fun c hc heq => hj (heq.symm.trans (node_eq_of_mem_visitCalls hc))

theorem callsTo_visitAllCalls_of_not_mem {ids : List NodeId} (hid : id ∉ ids) :
    callsTo id (visitAllCalls recompute inputs ids g r) = [] :=
  callsTo_of_forall_ne fun _ hc heq => hid (heq ▸ node_mem_of_mem_visitAllCalls hc)

/-- A policy decides how often a node is tried, and whether there is a pause that does not fit. -/
theorem tries_and_pause_iff {n : Node} (hn : g.node? id = some n) {made : Nat} (hmade : made ≠ 0) :
    (made < n.tries g.defaultRetry ∧ n.pauseFits g.defaultRetry made = false) ↔
      ∃ p, g.policy? id = some p ∧ made < p.maxAttempts ∧ p.delayAfter made = none := by
  have hpolicy : g.policy? id = n.retry.or g.defaultRetry := by
    rw [policy?, hn]
    rfl
  rw [hpolicy, Node.tries, Node.pauseFits]
  cases n.retry.or g.defaultRetry with
  | none => simp
  | some p =>
    rw [Option.map_some, Option.getD_some, Option.all_some, Option.isSome_eq_false_iff,
      Option.isNone_iff_eq_none]
    refine ⟨fun h => ⟨p, rfl, by omega, h.2⟩, ?_⟩
    rintro ⟨q, hq, hlt, hnone⟩
    obtain rfl := Option.some.inj hq
    exact ⟨by omega, hnone⟩

/-- **A turn breaks off exactly when it is stuck at its node.** -/
theorem visit_eq_none_iff_stuckAt :
    (g.visit recompute inputs id r).1 = none ↔
      g.StuckAt (g.visitCalls recompute inputs id) id := by
  have hidle : ∀ o : Report, some o = none ↔ g.StuckAt [] id := fun o =>
    ⟨fun h => absurd h (Option.some_ne_none _), fun h => absurd rfl h.callsTo_ne_nil⟩
  have hown : ∀ c ∈ g.visitCalls recompute inputs id, c.visit.node = id := fun c hc =>
    node_eq_of_mem_visitCalls hc
  have hcalls := callsTo_of_forall_eq hown
  rw [visitCalls] at hcalls ⊢
  rw [visit]
  cases hn : g.node? id with
  | none => exact hidle _
  | some n =>
    simp only [hn] at hcalls ⊢
    split
    · exact hidle _
    · rename_i hselects
      rw [if_neg hselects] at hcalls
      cases hfind : n.dependencies.find? g.hasFailed with
      | some d => exact hidle _
      | none =>
        simp only [hfind] at hcalls ⊢
        have hne : g.runCalls inputs id n ≠ [] := attemptCalls_ne_nil (n.tries_ne_zero _)
        rw [StuckAt, hcalls, run, attempt_eq_none_iff, Nat.zero_add]
        change _ ∧ (g.runCalls inputs id n).length < _ ∧
          n.pauseFits _ (g.runCalls inputs id n).length = false ↔ _
        rw [tries_and_pause_iff hn (mt List.length_eq_zero_iff.1 hne)]
        constructor
        · rintro ⟨hfail, p, hp, hlt, hnone⟩
          exact ⟨p, hp, hne, hfail, hlt, hnone⟩
        · rintro ⟨p, hp, -, hfail, hlt, hnone⟩
          exact ⟨hfail, p, hp, hlt, hnone⟩

theorem StuckAt.congr {calls' : List Call} (hpolicy : g'.policy? id = g.policy? id)
    (hcalls : callsTo id calls' = callsTo id calls) :
    g'.StuckAt calls' id ↔ g.StuckAt calls id := by
  rw [StuckAt, StuckAt, hpolicy, hcalls]

/-- **A walk breaks off exactly when it is stuck at some node.** -/
theorem visitAll_eq_none_iff_stuckAt {ids : List NodeId} (hids : ids.Nodup) :
    (visitAll recompute inputs ids g r).1 = none ↔
      ∃ id, g.StuckAt (visitAllCalls recompute inputs ids g r) id := by
  induction ids generalizing g r with
  | nil =>
    refine ⟨fun h => absurd h (Option.some_ne_none _), ?_⟩
    rintro ⟨id, hstuck⟩
    exact absurd rfl hstuck.callsTo_ne_nil
  | cons id ids ih =>
    obtain ⟨hid, hids⟩ := List.nodup_cons.1 hids
    have hturn : (g.visit recompute inputs id r).1 = none ↔ _ := visit_eq_none_iff_stuckAt
    have hlater := g.later_visit recompute inputs id r
    rw [visitAll, visitAllCalls]
    rcases hvisit : g.visit recompute inputs id r with ⟨_ | r₁, g₁⟩
    · rw [hvisit] at hturn
      exact ⟨fun _ => ⟨id, by rw [List.append_nil]; exact hturn.1 rfl⟩, fun _ => rfl⟩
    · rw [hvisit] at hturn hlater
      simp only
      rw [ih hids]
      have hrest : callsTo id (visitAllCalls recompute inputs ids g₁ r₁) = [] :=
        callsTo_visitAllCalls_of_not_mem hid
      refine exists_congr fun j => ?_
      by_cases hj : j = id
      · subst hj
        refine ⟨fun h => absurd hrest h.callsTo_ne_nil, fun h => ?_⟩
        cases hturn.2 ((StuckAt.congr rfl (by rw [callsTo_append, hrest, List.append_nil])).1 h)
      · exact StuckAt.congr (hlater.policy?_eq j)
          (by rw [callsTo_append, callsTo_visitCalls, if_neg hj, List.nil_append])

/-- A node whose body was called in its turn is completed after it, or has failed, even if the turn
breaks off. -/
theorem status_visit (hcalled : g.visitCalls recompute inputs id ≠ []) :
    ∃ n, (g.visit recompute inputs id r).2.node? id = some n ∧
      n.status = endStatus (g.visitCalls recompute inputs id) := by
  rw [visitCalls] at hcalled ⊢
  rw [visit]
  cases hn : g.node? id with
  | none => simp [hn] at hcalled
  | some n =>
    simp only [hn] at hcalled ⊢
    split at hcalled
    · exact absurd rfl hcalled
    · rename_i hselects
      rw [if_neg hselects, if_neg hselects]
      cases hfind : n.dependencies.find? g.hasFailed with
      | some d => simp [hfind] at hcalled
      | none =>
        have hbegun : (g.update id Node.begin).node? id = some n.begin := by
          rw [node?_update, if_pos rfl, hn]
          rfl
        exact status_attempt hbegun (n.tries_ne_zero _)

/-- **A node whose body was called in a walk is completed after it, or has failed**, even if the walk
breaks off. -/
theorem status_visitAll {ids : List NodeId} (hids : ids.Nodup)
    (hcalled : callsTo id (visitAllCalls recompute inputs ids g r) ≠ []) :
    ∃ n, (visitAll recompute inputs ids g r).2.node? id = some n ∧
      n.status = endStatus (callsTo id (visitAllCalls recompute inputs ids g r)) := by
  induction ids generalizing g r with
  | nil => exact absurd rfl hcalled
  | cons j ids ih =>
    obtain ⟨hj, hids⟩ := List.nodup_cons.1 hids
    have hturn (hcalled : g.visitCalls recompute inputs j ≠ []) :
        ∃ n, (g.visit recompute inputs j r).2.node? j = some n ∧
          n.status = endStatus (g.visitCalls recompute inputs j) := status_visit hcalled
    rw [visitAllCalls, callsTo_append, callsTo_visitCalls] at hcalled ⊢
    rw [visitAll]
    rcases hvisit : g.visit recompute inputs j r with ⟨o, g₁⟩
    rw [hvisit] at hcalled hturn
    by_cases heq : id = j
    · subst heq
      rw [if_pos rfl] at hcalled ⊢
      cases o with
      | none =>
        rw [show callsTo id [] = [] from rfl, List.append_nil] at hcalled ⊢
        exact hturn hcalled
      | some r₁ =>
        -- The rest of the walk does not touch the node.
        have hrest : callsTo id (visitAllCalls recompute inputs ids g₁ r₁) = [] :=
          callsTo_visitAllCalls_of_not_mem hj
        simp only [hrest, List.append_nil] at hcalled ⊢
        obtain ⟨n, hn, hstatus⟩ := hturn hcalled
        have hcore := (visitAll_keeps recompute inputs hj g₁ r₁).1
        rw [hn] at hcore
        obtain ⟨n', hn', hcore⟩ := Option.map_eq_some_iff.1 hcore
        exact ⟨n', hn', (congrArg Node.status hcore :).trans hstatus⟩
    · rw [if_neg heq, List.nil_append] at hcalled ⊢
      cases o with
      | none => exact absurd rfl hcalled
      | some r₁ => exact ih hids hcalled

/-- **A walk returns unless a pause is too long.**  It breaks off exactly if all calls of the body of
some node have failed, further attempts were to follow, and the pause before the next does not fit a
duration.  In any case every node whose body was called is completed if one of these calls completed,
and has failed if not.  If every policy is unfailing, that is, has a single attempt, no delay, or a
backoff that is negative, infinite or no number, then every walk returns. -/
theorem execute_breaks_off_iff_stuck (hg : Reachable g) (recompute : Option (List NodeId))
    (inputs : InputTable) :
    ((g.execute recompute inputs).1 = none ↔
        ∃ id, g.StuckAt (g.executeCalls recompute inputs) id) ∧
      (∀ id, callsTo id (g.executeCalls recompute inputs) ≠ [] →
        ∃ n, (g.execute recompute inputs).2.node? id = some n ∧
          n.status = endStatus (callsTo id (g.executeCalls recompute inputs))) ∧
      ((∀ id p, g.policy? id = some p → p.Unfailing) →
        (g.execute recompute inputs).1.isSome = true) := by
  have hnodup := hg.wellFormed.nodup_order
  have hstuck : (g.execute recompute inputs).1 = none ↔
      ∃ id, g.StuckAt (g.executeCalls recompute inputs) id := visitAll_eq_none_iff_stuckAt hnodup
  refine ⟨hstuck, fun id hcalled => status_visitAll hnodup hcalled, fun hunfailing => ?_⟩
  rw [← Option.not_isNone, Bool.not_eq_true', ← Bool.not_eq_true, Option.isNone_iff_eq_none, hstuck]
  rintro ⟨id, p, hp, hcalls, -, hlt, hnone⟩
  have hfits := (hunfailing id p hp).isSome_delayAfter (List.length_pos_iff.2 hcalls) hlt
  rw [hnone] at hfits
  cases hfits

/-- A node that fails, and whose second pause is too long for a duration. -/
def impatientGraph : Except GraphError Graph := do
  let g ← (empty none none).register ⟨"a"⟩ [] (Body.failing "no")
  g.setRetry ⟨"a"⟩ (some ⟨3, .ofMillis 1, 1e300⟩)

/-- The theorem applies to a walk that breaks off: the node has failed twice, and is not tried a third
time. -/
theorem execute_breaks_off_on_long_pause : ∃ g, Reachable g ∧ impatientGraph = .ok g ∧
    g.StuckAt (g.executeCalls none []) ⟨"a"⟩ ∧ (g.execute none []).1 = none := by
  have hruns : (impatientGraph.toOption.any fun g =>
      (g.policy? ⟨"a"⟩).any fun p =>
        !(callsTo ⟨"a"⟩ (g.executeCalls none [])).isEmpty &&
        (callsTo ⟨"a"⟩ (g.executeCalls none [])).all (fun c => !c.completes) &&
        decide ((callsTo ⟨"a"⟩ (g.executeCalls none [])).length < p.maxAttempts) &&
        (p.delayAfter (callsTo ⟨"a"⟩ (g.executeCalls none [])).length).isNone) = true := by
    decide +kernel
  cases hbuilt : impatientGraph with
  | error e =>
    rw [hbuilt] at hruns
    cases hruns
  | ok g =>
    rw [hbuilt, Except.toOption, Option.any_some] at hruns
    obtain ⟨p, hp, hruns⟩ := (Option.any_eq_true _ _).1 hruns
    simp only [Bool.and_eq_true, Bool.not_eq_true', List.all_eq_true, decide_eq_true_eq,
      List.isEmpty_eq_false_iff, Option.isNone_iff_eq_none] at hruns
    obtain ⟨⟨⟨hcalls, hfail⟩, hlt⟩, hnone⟩ := hruns
    obtain ⟨g₀, hregister, hretry⟩ := exists_of_bind hbuilt
    have hg := ((Reachable.empty none none).register hregister).setRetry hretry
    have hstuck : g.StuckAt (g.executeCalls none []) ⟨"a"⟩ := ⟨p, hp, hcalls, hfail, hlt, hnone⟩
    exact ⟨g, hg, rfl, hstuck, (execute_breaks_off_iff_stuck hg none []).1.2 ⟨_, hstuck⟩⟩

end Graph

end ReactiveScript

import ReactiveScript.Evaluation
import ReactiveScript.Proofs.Table

/-!
# Two runs side by side

The same piece of script is run under different settings: from top to bottom and as a node of a
graph, or as the same node under other inputs.  A `Coupling` says how two such runs correspond.  The
machine of the right run is that of the left one with other functions and module variables, and the
surroundings stay `near` each other.

Not every left run has to be followed: one that ends in an error need not be, say, or one that emits
a unit of which the right run has another input.  Which ones are is up to `Coupling.counts`, and
whether a run counts is known at its end only.  That is why `Eval.Couples` says separately what holds
of every left run.

* `Eval.Couples` — the right computation follows every left one that counts; it is closed under
  sequencing.
-/

set_option autoImplicit false

namespace ReactiveScript

namespace Ending

/-- Whether a computation ended with a value. -/
def isValue {ε α : Type} : Ending ε α → Bool
  | .value _ => true
  | _ => false

end Ending

variable {σ τ : Type}

/-- A correspondence between two runs. -/
structure Coupling (σ τ : Type) where
  /-- The setting of the left run. -/
  left : Setting σ
  /-- The setting of the right run. -/
  right : Setting τ
  /-- The functions of the left run. -/
  leftFunctions : Table String FunctionDef
  /-- The functions of the right run. -/
  rightFunctions : Table String FunctionDef
  /-- The module variables of the left run. -/
  leftGlobals : Table String Value
  /-- The module variables of the right run. -/
  rightGlobals : Table String Value
  /-- How the surroundings correspond. -/
  near : σ → τ → Prop
  /-- Whether the right run has to follow a left one that ends with a value or not, in some
  surroundings. -/
  counts : Bool → σ → Prop
  /-- What leads to a run that counts counts. -/
  counts_true : ∀ {b s}, counts b s → counts true s
  /-- A run that counts counted before the surroundings were asked for the time. -/
  counts_expired : ∀ {b s}, counts b (left.host.expired s).2 → counts b s
  /-- A run that counts counted before the surroundings were told about a unit. -/
  counts_emit : ∀ {b s} (site : Site) (u : OutputUnit), counts b (left.host.emit site u s) → counts b s
  /-- A run that counts counted before the surroundings were told about a line. -/
  counts_print : ∀ {b s} (line : String), counts b (left.host.print line s) → counts b s
  /-- Both runs are of the same script. -/
  file_eq : right.file = left.file
  /-- Calls nest equally deep in both. -/
  limit_eq : right.limit = left.limit
  /-- The library sorts alike in both. -/
  disorder_eq : right.host.disorder = left.host.disorder
  /-- The surroundings agree about the deadline. -/
  expired : ∀ {s t}, near s t → (right.host.expired t).1 = (left.host.expired s).1 ∧
    near (left.host.expired s).2 (right.host.expired t).2
  /-- The surroundings agree about the input of a unit if the run counts once the unit is emitted. -/
  input : ∀ {s t} (site : Site) (u : OutputUnit), near s t → counts true (left.host.emit site u s) →
    right.host.input u.id t = left.host.input u.id s
  /-- Units keep the surroundings near. -/
  emit : ∀ {s t} (site : Site) (u : OutputUnit), near s t →
    near (left.host.emit site u s) (right.host.emit site u t)
  /-- Lines keep the surroundings near. -/
  print : ∀ {s t} (line : String), near s t →
    near (left.host.print line s) (right.host.print line t)

namespace Coupling

variable (k : Coupling σ τ)

/-- A machine of the left run. -/
def Own (m : Machine) : Prop := m.functions = k.leftFunctions ∧ m.globals = k.leftGlobals

/-- The machine of the right run that corresponds to one of the left run. -/
def mirror (m : Machine) : Machine :=
  { m with functions := k.rightFunctions, globals := k.rightGlobals }

/-- Under the same functions and module variables the machines are the same. -/
theorem mirror_of_own {m : Machine} (hm : k.Own m) (hfunctions : k.rightFunctions = k.leftFunctions)
    (hglobals : k.rightGlobals = k.leftGlobals) : k.mirror m = m := by
  rw [mirror, hfunctions, hglobals, ← hm.1, ← hm.2]

end Coupling

namespace Eval

/-- One computation after another. -/
theorem bind_apply {σ α β : Type} (x : Eval σ α) (f : α → Eval σ β) (m : Machine) (s : σ) :
    (x >>= f) m s = match x m s with
      | (.value a, m, s) => f a m s
      | (.error e, m, s) => (.error e, m, s)
      | (.panic p, m, s) => (.panic p, m, s) := rfl

/-- The right computation follows every left one that counts, and the left one ends with nothing but
what `post` says. -/
structure Couples {α : Type} (k : Coupling σ τ) (post : α → Prop) (x : Eval σ α) (y : Eval τ α) :
    Prop where
  /-- Functions and module variables stay. -/
  own : ∀ m s, k.Own m → k.Own (x m s).2.1
  /-- A run that counts at the end counted all the time. -/
  counted : ∀ m s b, k.Own m → k.counts b (x m s).2.2 → k.counts true s
  /-- A value comes from as deep as the computation began. -/
  depth_eq : ∀ m s a, k.Own m → (x m s).1 = .value a → (x m s).2.1.depth = m.depth
  /-- What is known of a value. -/
  post : ∀ m s a, k.Own m → (x m s).1 = .value a → post a
  /-- A left run that counts is followed. -/
  follows : ∀ m s t, k.Own m → k.near s t → k.counts (x m s).1.isValue (x m s).2.2 →
    ∃ t', y (k.mirror m) t = ((x m s).1, k.mirror (x m s).2.1, t') ∧ k.near (x m s).2.2 t'

namespace Couples

variable {k : Coupling σ τ} {α β : Type} {P : α → Prop} {Q : β → Prop}

theorem mono {P' : α → Prop} {x : Eval σ α} {y : Eval τ α} (h : Couples k P x y)
    (hP : ∀ a, P a → P' a) : Couples k P' x y :=
  ⟨h.own, h.counted, h.depth_eq, fun m s a hm ha => hP a (h.post m s a hm ha), h.follows⟩

/-- A computation that changes nothing. -/
theorem still {e : Ending EvalError α} (he : ∀ a, e = .value a → P a) :
    Couples k P (fun m s => (e, m, s)) (fun m t => (e, m, t)) :=
  ⟨fun _ _ hm => hm, fun _ _ _ _ hc => k.counts_true hc, fun _ _ _ _ _ => rfl,
    fun _ _ a _ ha => he a ha, fun _ _ t _ hst _ => ⟨t, rfl, hst⟩⟩

theorem value {a : α} (ha : P a) : Couples k P (Eval.value a) (Eval.value a) := by
  refine still fun b hb => ?_
  cases hb
  exact ha

theorem fail (kind : EvalError.Kind) (span : Span) :
    Couples k P (Eval.fail kind span) (Eval.fail kind span) :=
  still fun _ hb => by cases hb

theorem panic (message : String) : Couples k P (Eval.panic message) (Eval.panic message) :=
  still fun _ hb => by cases hb

theorem ofChecked (span : Span) {c : Checked α} (hc : ∀ a, c = .ok a → P a) :
    Couples k P (Eval.ofChecked span c) (Eval.ofChecked span c) := by
  cases c with
  | ok a => exact value (hc a rfl)
  | error kind => exact fail kind span

/-- A left run that ends with an error and does not count need not be followed. -/
theorem fail_left (kind : EvalError.Kind) (span : Span) (hno : ∀ s, ¬ k.counts false s)
    (y : Eval τ α) : Couples k P (Eval.fail kind span) y :=
  ⟨fun _ _ hm => hm, fun _ _ _ _ hc => k.counts_true hc, fun _ _ _ _ _ => rfl,
    fun _ _ _ _ hb => (by cases hb), fun _ s _ _ _ hc => absurd hc (hno s)⟩

theorem bind {x : Eval σ α} {y : Eval τ α} {f : α → Eval σ β} {g : α → Eval τ β}
    (h : Couples k P x y) (hf : ∀ a, P a → Couples k Q (f a) (g a)) :
    Couples k Q (x >>= f) (y >>= g) := by
  refine ⟨fun m s hm => ?_, fun m s b hm hc => ?_, fun m s b hm hb => ?_, fun m s b hm hb => ?_,
    fun m s t hm hst hc => ?_⟩
  · have hown := h.own m s hm
    have hpost := h.post m s
    rw [bind_apply]
    rcases hx : x m s with ⟨_ | _ | _, m', s'⟩ <;> rw [hx] at hown hpost
    · exact (hf _ (hpost _ hm rfl)).own m' s' hown
    · exact hown
    · exact hown
  · have hown := h.own m s hm
    have hcounted := h.counted m s
    have hpost := h.post m s
    rw [bind_apply] at hc
    rcases hx : x m s with ⟨_ | _ | _, m', s'⟩ <;> rw [hx] at hown hcounted hpost hc
    · exact hcounted true hm ((hf _ (hpost _ hm rfl)).counted m' s' b hown hc)
    · exact hcounted b hm hc
    · exact hcounted b hm hc
  · have hown := h.own m s hm
    have hpost := h.post m s
    have hdepth := h.depth_eq m s
    rw [bind_apply x f] at hb ⊢
    rcases hx : x m s with ⟨_ | _ | _, m', s'⟩ <;> rw [hx] at hown hpost hdepth hb
    · exact ((hf _ (hpost _ hm rfl)).depth_eq m' s' b hown hb).trans (hdepth _ hm rfl)
    · cases hb
    · cases hb
  · have hown := h.own m s hm
    have hpost := h.post m s
    rw [bind_apply] at hb
    rcases hx : x m s with ⟨_ | _ | _, m', s'⟩ <;> rw [hx] at hown hpost hb
    · exact (hf _ (hpost _ hm rfl)).post m' s' b hown hb
    · cases hb
    · cases hb
  · have hown := h.own m s hm
    have hpost := h.post m s
    have hfollows := h.follows m s t hm hst
    rw [bind_apply x f] at hc ⊢
    rcases hx : x m s with ⟨a | e | p, m', s'⟩ <;> rw [hx] at hown hpost hfollows hc
    · -- The first part counts because the whole does.
      have hrest := hf a (hpost a hm rfl)
      obtain ⟨t', ht', hnear⟩ := hfollows (hrest.counted m' s' _ hown hc)
      obtain ⟨t'', ht'', hnear'⟩ := hrest.follows m' s' t' hown hnear hc
      refine ⟨t'', ?_, hnear'⟩
      show Eval.andThen y g (k.mirror m) t = _
      rw [Eval.andThen, ht']
      exact ht''
    · obtain ⟨t', ht', hnear⟩ := hfollows hc
      refine ⟨t', ?_, hnear⟩
      show Eval.andThen y g (k.mirror m) t = _
      rw [Eval.andThen, ht']
    · obtain ⟨t', ht', hnear⟩ := hfollows hc
      refine ⟨t', ?_, hnear⟩
      show Eval.andThen y g (k.mirror m) t = _
      rw [Eval.andThen, ht']

/-- A computation that begins with a look at the machine. -/
theorem machine {f : Machine → Eval σ α} {g : Machine → Eval τ α}
    (h : ∀ m, k.Own m → Couples k P (f m) (g (k.mirror m))) :
    Couples k P (Eval.machine >>= f) (Eval.machine >>= g) :=
  ⟨fun m s hm => (h m hm).own m s hm, fun m s b hm hc => (h m hm).counted m s b hm hc,
    fun m s a hm ha => (h m hm).depth_eq m s a hm ha,
    fun m s a hm ha => (h m hm).post m s a hm ha,
    fun m s t hm hst hc => (h m hm).follows m s t hm hst hc⟩

theorem ask {f : σ → α × σ} {g : τ → α × τ} (hf : ∀ {b s}, k.counts b (f s).2 → k.counts b s)
    (h : ∀ s t, k.near s t → (g t).1 = (f s).1 ∧ k.near (f s).2 (g t).2) :
    Couples k (fun _ => True) (Eval.ask f) (Eval.ask g) := by
  refine ⟨fun _ _ hm => hm, fun _ _ _ _ hc => k.counts_true (hf hc), fun _ _ _ _ _ => rfl,
    fun _ _ _ _ _ => trivial, fun m s t _ hst _ => ?_⟩
  obtain ⟨hvalue, hnear⟩ := h s t hst
  refine ⟨(g t).2, ?_, hnear⟩
  show (Ending.value (g t).1, k.mirror m, (g t).2) = _
  rw [hvalue]
  rfl

theorem tell {f : σ → σ} {g : τ → τ} (hf : ∀ {b s}, k.counts b (f s) → k.counts b s)
    (h : ∀ s t, k.near s t → k.near (f s) (g t)) :
    Couples k (fun _ => True) (Eval.tell f) (Eval.tell g) :=
  ⟨fun _ _ hm => hm, fun _ _ _ _ hc => k.counts_true (hf hc), fun _ _ _ _ _ => rfl,
    fun _ _ _ _ _ => trivial, fun _ s t _ hst _ => ⟨g t, rfl, h s t hst⟩⟩

end Couples

end Eval

end ReactiveScript

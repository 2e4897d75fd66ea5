import ReactiveScript.Proofs.Evaluation.Places

/-!
# Traces are call stacks

An error gets its trace on the way out: the end of every call that it passes adds a frame.  So the
trace lists the calls that were under way at the moment when the error was raised.  Which calls
these are is seen from the run itself: a call gets under way when the machine enters a function, and
it is over when its body has ended.  The definition that is entered is looked up at that moment, and
it may have been replaced by another one since.

* `Stepwise.Start.Reaches` — the moments of a run, each with the calls that are under way.
* `Stepwise.Nested` — every call stands in the body of the function that was called before it.
* `Stepwise.Sound` — what holds at every moment: `Stepwise.Sound.step` is one step.
* `Stepwise.trace_is_call_stack` — the trace of a failed run.
-/

set_option autoImplicit false

namespace ReactiveScript

open Block Eval

namespace Stepwise

variable {σ : Type} {a b r : Kind}

/-! ## Calls under way -/

/-- What a call leaves in a trace. -/
def Activation.frame (call : Activation) : EvalError.Frame := ⟨call.definition.name, call.span⟩

/-- Whether a frame waits for the body of a function. -/
def Frame.isBody : {a b : Kind} → Frame a b → Bool
  | _, _, .body .. => true
  | _, _, _ => false

/-- The calls under way after a step: one more if a function has been entered, one less if the body
of one has ended. -/
def Configuration.underway (calls : List Activation) :
    Configuration σ r → Configuration σ r → List Activation
  | .begin t _ _ _, .begin .. => t.entered?.toList ++ calls
  | .resume _ (.cons frame _) _ _, _ => if frame.isBody then calls.tail else calls
  | .unwind _ (.cons frame _) _ _, _ => if frame.isBody then calls.tail else calls
  | _, _ => calls

/-- The start of a run of a top-level statement. -/
structure Start (σ : Type) where
  /-- What stays the same. -/
  setting : Setting σ
  /-- The statement. -/
  stmt : Stmt
  /-- The machine before. -/
  machine : Machine
  /-- The surroundings before. -/
  state : σ

/-- The first moment of a run. -/
def Start.first (r : Start σ) : Configuration σ .flow :=
  .begin (.stmt r.stmt .module) .nil (r.machine.anchored r.stmt.span) r.state

/-- A run comes to a moment with some calls under way, innermost first. -/
inductive Start.Reaches (r : Start σ) : List Activation → Configuration σ .flow → Prop
  /-- At the start there are none. -/
  | start : Reaches r [] r.first
  /-- The run goes on by a step. -/
  | step {calls : List Activation} {x y : Configuration σ .flow} :
      Reaches r calls x → x.step r.setting = some y → Reaches r (x.underway calls y) y

/-- The block that is run while some calls are under way: the body of the function called last, or
the top-level statement. -/
def code (stmt : Stmt) : List Activation → List Stmt
  | [] => [stmt]
  | call :: _ => call.definition.body

/-- Every call stands, as a call of the function by its name, in the block that was run when it was
made. -/
def Nested (stmt : Stmt) : List Activation → Prop
  | [] => True
  | call :: calls => HasCall (code stmt calls) call.definition.name call.span ∧ Nested stmt calls

/-- Some calls can be under way in a run. -/
structure Start.Stands (r : Start σ) (known : FunctionDef → Prop) (calls : List Activation) :
    Prop where
  /-- The functions are known. -/
  isKnown : ∀ call ∈ calls, known call.definition
  /-- Every call stands in the body of the function called before. -/
  nested : Nested r.stmt calls
  /-- There are no more calls inside each other than the limit allows. -/
  length_le : calls.length ≤ r.setting.limit - r.machine.depth

/-- With some calls under way a run comes to a moment when an error of a kind is raised at a
position of the block that is run. -/
structure Start.Raises (r : Start σ) (known : FunctionDef → Prop) (calls : List Activation)
    (kind : EvalError.Kind) (span : Span) : Prop extends r.Stands known calls where
  /-- The moment. -/
  reaches : ∃ (a : Kind) (k : Stack a .flow) (m : Machine) (s : σ),
    r.Reaches calls (.unwind ⟨kind, span, []⟩ k m s)
  /-- The position. -/
  hasPlace : HasPlace (code r.stmt calls) span

/-! ## What holds at every moment -/

/-- What waits is made of the blocks of the calls under way, and the bodies that are waited for are
those of these calls. -/
inductive Stack.In (stmt : Stmt) : {a r : Kind} → List Activation → Stack a r → Prop
  /-- Nothing waits. -/
  | nil {r : Kind} : In stmt [] (.nil : Stack r r)
  /-- A frame waits inside the call made last. -/
  | wait {a b r : Kind} {calls : List Activation} {frame : Frame a b} {rest : Stack b r} :
      frame.Within (code stmt calls) → In stmt calls rest → In stmt calls (.cons frame rest)
  /-- The call made last waits for its body. -/
  | body {r : Kind} {calls : List Activation} {call : Activation} {rest : Stack .value r} :
      In stmt calls rest →
      In stmt (call :: calls) (.cons (.body call.definition.name call.span) rest)

/-- The machine is in order while some calls are under way. -/
structure Start.Orderly (r : Start σ) (known : FunctionDef → Prop) (calls : List Activation)
    (m : Machine) : Prop extends r.Stands known calls where
  /-- The functions are listed under their names, and are known. -/
  knows : Knows known m
  /-- The calls under way have been counted. -/
  depth_eq : m.depth = r.machine.depth + calls.length

/-- What holds at every moment of a run.  While an error passes what waits, its trace lists the
calls that it has passed, which were under way inside the others when it was raised. -/
def Sound (r : Start σ) (known : FunctionDef → Prop) (calls : List Activation) :
    Configuration σ .flow → Prop
  | .begin t k m _ =>
    t.Within (code r.stmt calls) known ∧ k.In r.stmt calls ∧ r.Orderly known calls m
  | .resume _ k m _ => k.In r.stmt calls ∧ r.Orderly known calls m
  | .unwind e k m _ => k.In r.stmt calls ∧ r.Orderly known calls m ∧
    ∃ passed, e.trace = passed.map Activation.frame ∧
      r.Raises known (passed ++ calls) e.kind e.span
  | .panicked _ _ _ => True

section

variable {start : Start σ} {known : FunctionDef → Prop} {calls : List Activation}

/-! ## One step -/

theorem underway_begin {t : Task a} (h : t.entered? = none) (k : Stack a r) (m : Machine) (s : σ)
    (y : Configuration σ r) : (Configuration.begin t k m s).underway calls y = calls := by
  cases y <;> simp [Configuration.underway, h]

theorem isBody_of_within {ss : List Stmt} {frame : Frame a b} (h : frame.Within ss) :
    frame.isBody = false := by
  cases frame with
  | body => cases h
  | _ => rfl

theorem pass_of_within {ss : List Stmt} {frame : Frame a b} (h : frame.Within ss) (e : EvalError)
    (m : Machine) : frame.pass e m = (e, m) := by
  cases frame with
  | body => cases h
  | _ => rfl

/-- Entering a function either fails where it is called, or leads into its body one level deeper. -/
theorem enter_cases (c : Setting σ) (d : FunctionDef) (args : Arguments) (span : Span) (m : Machine)
    (s : σ) :
    (∃ kind, enter c d args span m s = (.error ⟨kind, span, []⟩, m, s)) ∨
      m.depth < c.limit ∧ ∃ scope, enter c d args span m s =
        (.value (.push (.body d.name span) (.block d.body scope)),
          { m with depth := m.depth + 1 }, s) := by
  rcases Nat.lt_or_ge m.depth c.limit with hlt | hle
  · rw [enter_of_lt_limit hlt]
    cases args.bindAll d with
    | error kind => exact Or.inl ⟨kind, rfl⟩
    | ok locals => exact Or.inr ⟨hlt, Scope.ofLocals locals, rfl⟩
  · exact Or.inl ⟨.recursion c.limit, enter_of_limit_le hle d args span s⟩

/-- An error that has just been raised has passed nothing. -/
theorem sound_raised {e : EvalError} {k : Stack a .flow} {m : Machine} {s : σ}
    (htrace : e.trace = []) (hplace : HasPlace (code start.stmt calls) e.span)
    (hk : k.In start.stmt calls) (hm : start.Orderly known calls m)
    (hreaches : start.Reaches calls (.unwind e k m s)) :
    Sound start known calls (.unwind e k m s) := by
  obtain ⟨kind, span, trace⟩ := e
  cases htrace
  exact ⟨hk, hm, [], rfl, hm.toStands, ⟨a, k, m, s, hreaches⟩, hplace⟩

/-- A move that keeps to the block that is run. -/
theorem sound_onto {z : Eval σ (Move a)} {k : Stack a .flow} {m : Machine} {s : σ}
    (hz : Keeps (code start.stmt calls) known (Move.Within (code start.stmt calls) known) z)
    (hk : k.In start.stmt calls) (hm : start.Orderly known calls m)
    (hreaches : start.Reaches calls (.onto (z m s) k)) :
    Sound start known calls (.onto (z m s) k) := by
  obtain ⟨hknows, hdepth, hvalue, herror⟩ := hz m s hm.knows
  rcases hzm : z m s with ⟨move | e | p, m', s'⟩ <;>
    rw [hzm] at hknows hdepth hvalue herror hreaches
  · have hm' : start.Orderly known calls m' := ⟨hm.toStands, hknows, hdepth.trans hm.depth_eq⟩
    have hmove := hvalue move rfl
    cases move with
    | give y => exact ⟨hk, hm'⟩
    | go t => exact ⟨hmove, hk, hm'⟩
    | push frame t => exact ⟨hmove.2, .wait hmove.1 hk, hm'⟩
  · obtain ⟨htrace, hplace⟩ := herror e rfl
    exact sound_raised htrace hplace hk ⟨hm.toStands, hknows, hdepth.trans hm.depth_eq⟩ hreaches
  · trivial

/-- A call that gets under way. -/
theorem Start.Orderly.enter {call : Activation} {m : Machine} (h : start.Orderly known calls m)
    (hknown : known call.definition)
    (hcall : HasCall (code start.stmt calls) call.definition.name call.span)
    (hdepth : m.depth < start.setting.limit) :
    start.Orderly known (call :: calls) { m with depth := m.depth + 1 } where
  isKnown := List.forall_mem_cons.2 ⟨hknown, h.isKnown⟩
  nested := ⟨hcall, h.nested⟩
  length_le := by
    have heq := h.depth_eq
    rw [List.length_cons]
    omega
  knows := h.knows
  depth_eq := by
    have heq := h.depth_eq
    rw [List.length_cons]
    show m.depth + 1 = _
    omega

/-- A call that is over. -/
theorem Start.Orderly.leave {call : Activation} {m : Machine}
    (h : start.Orderly known (call :: calls) m) :
    start.Orderly known calls { m with depth := m.depth - 1 } where
  isKnown := (List.forall_mem_cons.1 h.isKnown).2
  nested := h.nested.2
  length_le := Nat.le_trans (Nat.le_succ _) h.length_le
  knows := h.knows
  depth_eq := by
    have heq := h.depth_eq
    rw [List.length_cons] at heq
    show m.depth - 1 = _
    omega

/-- The functions that are known define known functions only. -/
structure Start.Closed (start : Start σ) (known : FunctionDef → Prop) : Prop where
  /-- The statement does. -/
  stmt : Defines [start.stmt] known
  /-- So do the bodies. -/
  body : ∀ d, known d → Defines d.body known

theorem Start.Closed.defines (h : start.Closed known) (hcalls : start.Stands known calls) :
    Defines (code start.stmt calls) known := by
  cases calls with
  | nil => exact h.stmt
  | cons call calls => exact h.body _ (hcalls.isKnown call List.mem_cons_self)

theorem Task.eq_invoke {t : Task a} {call : Activation} (h : t.entered? = some call) :
    ∃ (ha : a = .value) (args : Arguments), ha ▸ t = .invoke call.definition args call.span := by
  cases t with
  | invoke d args span =>
    cases h
    exact ⟨rfl, args, rfl⟩
  | _ => cases h

theorem sound_begin (hclosed : start.Closed known) {t : Task a} {k : Stack a .flow} {m : Machine}
    {s : σ} (hreaches : start.Reaches calls (.begin t k m s))
    (h : Sound start known calls (.begin t k m s)) {y : Configuration σ .flow}
    (hstep : (Configuration.begin t k m s).step start.setting = some y) :
    Sound start known ((Configuration.begin t k m s).underway calls y) y := by
  have hnext := hreaches.step hstep
  obtain ⟨ht, hk, hm⟩ := h
  cases hstep
  cases hentered : t.entered? with
  | none =>
    rw [underway_begin hentered] at hnext ⊢
    exact sound_onto (t.keeps_begin (hclosed.defines hm.toStands) ht hentered) hk hm hnext
  | some call =>
    obtain ⟨rfl, args, rfl⟩ := t.eq_invoke hentered
    obtain ⟨hcall, hknown⟩ := ht
    rcases enter_cases start.setting call.definition args call.span m s with
      ⟨kind, henter⟩ | ⟨hlt, scope, henter⟩
    · rw [Task.begin, henter] at hnext ⊢
      exact sound_raised rfl hcall.hasPlace hk hm hnext
    · rw [Task.begin, henter]
      exact ⟨fun s hs => .here hs, .body hk, hm.enter hknown hcall hlt⟩

theorem sound_resume {y : a.type} {k : Stack a .flow} {m : Machine} {s : σ}
    (hreaches : start.Reaches calls (.resume y k m s))
    (h : Sound start known calls (.resume y k m s)) {x : Configuration σ .flow}
    (hstep : (Configuration.resume y k m s).step start.setting = some x) :
    Sound start known ((Configuration.resume y k m s).underway calls x) x := by
  have hnext := hreaches.step hstep
  obtain ⟨hk, hm⟩ := h
  cases hk with
  | nil => cases hstep
  | wait hframe hrest =>
    cases hstep
    rw [Configuration.underway, isBody_of_within hframe] at hnext ⊢
    exact sound_onto (Frame.keeps_resume hframe y) hrest hm hnext
  | body hrest =>
    cases hstep
    cases y <;> exact ⟨hrest, hm.leave⟩

theorem sound_unwind {e : EvalError} {k : Stack a .flow} {m : Machine} {s : σ}
    (h : Sound start known calls (.unwind e k m s)) {x : Configuration σ .flow}
    (hstep : (Configuration.unwind e k m s).step start.setting = some x) :
    Sound start known ((Configuration.unwind e k m s).underway calls x) x := by
  obtain ⟨hk, hm, passed, htrace, hraises⟩ := h
  cases hk with
  | nil => cases hstep
  | wait hframe hrest =>
    cases hstep
    rw [Configuration.underway, isBody_of_within hframe, pass_of_within hframe]
    exact ⟨hrest, hm, passed, htrace, hraises⟩
  | @body _ calls call _ hrest =>
    cases hstep
    refine ⟨hrest, hm.leave, passed ++ [call], ?_, ?_⟩
    · show e.trace ++ [call.frame] = _
      rw [htrace, List.map_append, List.map_singleton]
    · rwa [List.append_assoc, List.singleton_append]

/-- **Every step keeps what holds.** -/
theorem Sound.step (hclosed : start.Closed known) {x y : Configuration σ .flow}
    (hreaches : start.Reaches calls x) (h : Sound start known calls x)
    (hstep : x.step start.setting = some y) : Sound start known (x.underway calls y) y := by
  cases x with
  | begin t k m s => exact sound_begin hclosed hreaches h hstep
  | resume y k m s => exact sound_resume hreaches h hstep
  | unwind e k m s => exact sound_unwind h hstep
  | panicked => cases hstep

/-! ## A whole run -/

/-- **What holds at one moment of a run holds at all later ones.** -/
theorem Sound.leads (hclosed : start.Closed known) {bound : Nat} {x y : Configuration σ .flow}
    (hleads : Leads start.setting bound x y) (hreaches : start.Reaches calls x)
    (h : Sound start known calls x) : ∃ calls', Sound start known calls' y := by
  induction hleads generalizing calls with
  | refl _ => exact ⟨calls, h⟩
  | step _ hstep _ ih => exact ih (hreaches.step hstep) (h.step hclosed hreaches hstep)

theorem sound_first (hknows : Knows known start.machine) : Sound start known [] start.first :=
  ⟨.here (List.mem_singleton_self _), .nil, ⟨nofun, trivial, Nat.zero_le _⟩, hknows, rfl⟩

/-- What the evaluator says about the statement. -/
def Start.result (start : Start σ) : Ending EvalError Flow × Machine × σ :=
  start.stmt.execWith start.setting (start.setting.invocation start.machine) .module
    (start.machine.anchored start.stmt.span) start.state

theorem Start.runTop_eq (start : Start σ) :
    start.stmt.runTop start.setting start.machine start.state =
      match start.result with
      | (.value _, m, s) => (.value (), m, s)
      | (.error e, m, s) => (.error e, m, s)
      | (.panic p, m, s) => (.panic p, m, s) := by
  show (start.stmt.execWith start.setting (start.setting.invocation start.machine) .module >>=
    fun _ => Eval.value ()) _ _ = _
  rw [bind_apply, ← result]
  rcases start.result with ⟨_ | _ | _, m, s⟩ <;> rfl

/-- The run comes to what the evaluator says. -/
theorem Start.exists_sound_result (hclosed : start.Closed known)
    (hknows : Knows known start.machine) :
    ∃ calls, Sound start known calls (.after (a := .flow) start.result .nil) :=
  (sound_first hknows).leads hclosed
    ((Task.ends start.setting (.stmt start.stmt .module)).leads .nil _ start.state) .start

/-- A statement that ends leaves the machine in order. -/
theorem Start.knows_of_runTop (hclosed : start.Closed known) (hknows : Knows known start.machine)
    {m : Machine} {s : σ}
    (h : start.stmt.runTop start.setting start.machine start.state = (.value (), m, s)) :
    Knows known m ∧ m.depth = start.machine.depth := by
  obtain ⟨calls, hsound⟩ := exists_sound_result hclosed hknows
  rw [runTop_eq] at h
  rcases hresult : start.result with ⟨flow | e | p, m', s'⟩ <;> rw [hresult] at h hsound <;> cases h
  obtain ⟨hnil, horderly⟩ := hsound
  cases hnil
  exact ⟨horderly.knows, horderly.depth_eq⟩

/-- A statement that fails has raised the error inside the calls of its trace. -/
theorem Start.exists_raises_of_runTop (hclosed : start.Closed known)
    (hknows : Knows known start.machine) {e : EvalError} {m : Machine} {s : σ}
    (h : start.stmt.runTop start.setting start.machine start.state = (.error e, m, s)) :
    ∃ calls, e.trace = calls.map Activation.frame ∧ start.Raises known calls e.kind e.span := by
  obtain ⟨calls, hsound⟩ := exists_sound_result hclosed hknows
  rw [runTop_eq] at h
  rcases hresult : start.result with ⟨flow | e | p, m', s'⟩ <;> rw [hresult] at h hsound <;> cases h
  obtain ⟨hnil, -, passed, htrace, hraises⟩ := hsound
  cases hnil
  rw [List.append_nil] at hraises
  exact ⟨passed, htrace, hraises⟩

/-- A script fails at one of its statements, and those before it leave the machine in order. -/
theorem exists_raises_of_runAll {c : Setting σ} {ss : List Stmt}
    (hss : ∀ stmt ∈ ss, Defines [stmt] known) (hbody : ∀ d, known d → Defines d.body known)
    {m m' : Machine} {s s' : σ} {e : EvalError}
    (hknows : Knows known m) (h : Stmt.runAll c ss m s = (.error e, m', s')) :
    ∃ before stmt after m₁ s₁, ss = before ++ stmt :: after ∧
      Stmt.runAll c before m s = (.value (), m₁, s₁) ∧ m₁.depth = m.depth ∧
      stmt.runTop c m₁ s₁ = (.error e, m', s') ∧
      ∃ calls, e.trace = calls.map Activation.frame ∧
        (⟨c, stmt, m₁, s₁⟩ : Start σ).Raises known calls e.kind e.span := by
  induction ss generalizing m s with
  | nil => cases h
  | cons stmt rest ih =>
    obtain ⟨hstmt, hrest⟩ := List.forall_mem_cons.1 hss
    have hclosed : (⟨c, stmt, m, s⟩ : Start σ).Closed known := ⟨hstmt, hbody⟩
    have hrun : ∀ ss', Stmt.runAll c (stmt :: ss') m s =
        (stmt.runTop c >>= fun _ => Stmt.runAll c ss') m s := fun _ => rfl
    rw [hrun, bind_apply] at h
    rcases htop : stmt.runTop c m s with ⟨_ | e' | p, m₁, s₁⟩ <;> rw [htop] at h
    · obtain ⟨hknows₁, hdepth₁⟩ := Start.knows_of_runTop hclosed hknows htop
      obtain ⟨before, stmt', after, m₂, s₂, rfl, hbefore, hdepth, hfails⟩ := ih hrest hknows₁ h
      refine ⟨stmt :: before, stmt', after, m₂, s₂, rfl, ?_, hdepth.trans hdepth₁, hfails⟩
      rw [hrun, bind_apply, htop]
      exact hbefore
    · cases h
      have hraises := Start.exists_raises_of_runTop hclosed hknows htop
      exact ⟨[], stmt, rest, m, s, rfl, rfl, rfl, htop, hraises⟩
    · cases h

end

/-! ## The theorem -/

/-- The functions that a script can call: those that are there at the start, those that its
statements define, and those that their bodies define. -/
inductive Known (m : Machine) (ss : List Stmt) : FunctionDef → Prop
  /-- It is there at the start. -/
  | given {f : String} {d : FunctionDef} : Table.get? f m.functions = some d → Known m ss d
  /-- A statement of the script defines it. -/
  | defined {s : Stmt} {d : FunctionDef} : HasStmt ss s → s.definition? = some d → Known m ss d
  /-- A statement in the body of another one defines it. -/
  | nested {s : Stmt} {d d' : FunctionDef} :
      Known m ss d → HasStmt d.body s → s.definition? = some d' → Known m ss d'

/-- **The trace of an error is the stack of calls at the moment when it was raised.**  If a script
fails, then one of its top-level statements does.  The run of that statement comes to a moment when
an error of this kind is raised at this position; the trace lists the calls that are under way then,
innermost first, and there are no more of them than the limit allows.  The position is in the body
of the definition that was called last, or in the statement itself; and every call stands, as a call
of the function by its name, in the body of the definition called before it, or in the statement. -/
theorem trace_is_call_stack {c : Setting σ} {script : Script} {m m' : Machine} {s s' : σ}
    {e : EvalError} (hm : ∀ f d, Table.get? f m.functions = some d → d.name = f)
    (h : script.run c m s = (.error e, m', s')) :
    ∃ before stmt after m₁ s₁ calls,
      script.body = before ++ stmt :: after ∧
      Stmt.runAll c before m s = (.value (), m₁, s₁) ∧ stmt.runTop c m₁ s₁ = (.error e, m', s') ∧
      (∃ (a : Kind) (k : Stack a .flow) (m₂ : Machine) (s₂ : σ),
        (⟨c, stmt, m₁, s₁⟩ : Start σ).Reaches calls (.unwind ⟨e.kind, e.span, []⟩ k m₂ s₂)) ∧
      e.trace = calls.map Activation.frame ∧ e.trace.length ≤ c.limit - m.depth ∧
      HasPlace (code stmt calls) e.span ∧ Nested stmt calls ∧
      ∀ call ∈ calls, Known m script.body call.definition := by
  have hstmts : ∀ stmt ∈ script.body, Defines [stmt] (Known m script.body) := by
    intro stmt hstmt s hs d hd
    exact .defined (hs.trans (List.forall_mem_singleton.2 (.here hstmt))) hd
  have hbody : ∀ d, Known m script.body d → Defines d.body (Known m script.body) :=
    fun d hknown s hs d' hd' => .nested hknown hs hd'
  obtain ⟨before, stmt, after, m₁, s₁, hsplit, hbefore, hdepth, htop, calls, htrace, hraises⟩ :=
    exists_raises_of_runAll hstmts hbody (fun f d hd => ⟨hm f d hd, .given hd⟩) h
  refine ⟨before, stmt, after, m₁, s₁, calls, hsplit, hbefore, htop, hraises.reaches, htrace, ?_,
    hraises.hasPlace, hraises.nested, hraises.isKnown⟩
  rw [htrace, List.length_map, ← hdepth]
  exact hraises.length_le

/-- A script that calls a function through another one before and after it is defined anew; the
second definition reads a variable that nothing assigns. -/
def redefining : Script := ⟨[
  .define ⟨1, 1⟩ "g" ["x"] ⟨1, 1⟩ [.result ⟨2, 5⟩ (some (.name ⟨2, 12⟩ "x"))],
  .define ⟨3, 1⟩ "f" ["x"] ⟨3, 1⟩
    [.result ⟨4, 5⟩ (some (.call ⟨4, 12⟩ "g" [.name ⟨4, 14⟩ "x"] []))],
  .assign ⟨5, 1⟩ "y" (.call ⟨5, 5⟩ "f" [.literal ⟨5, 7⟩ .null] []),
  .define ⟨6, 1⟩ "g" ["x"] ⟨6, 1⟩ [.result ⟨7, 5⟩ (some (.name ⟨7, 12⟩ "z"))],
  .assign ⟨8, 1⟩ "y" (.call ⟨8, 5⟩ "f" [.literal ⟨8, 7⟩ .null] [])]⟩

/-- The theorem applies to a script that defines a function anew: the error is in the body of the
later definition. -/
theorem trace_is_call_stack_of_redefining :
    ∃ e m' s', redefining.run ⟨"app.tr", 2, nowhere⟩ (.fresh []) () = (.error e, m', s') ∧
      e.span = ⟨7, 12⟩ ∧ e.trace = [⟨"g", ⟨4, 12⟩⟩, ⟨"f", ⟨8, 5⟩⟩] ∧
      ∃ stmt calls, calls.map Activation.frame = e.trace ∧ HasPlace (code stmt calls) ⟨7, 12⟩ ∧
        Nested stmt calls := by
  have hfails : (redefining.run ⟨"app.tr", 2, nowhere⟩ (.fresh []) ()).1 =
      .error ⟨.name "z", ⟨7, 12⟩, [⟨"g", ⟨4, 12⟩⟩, ⟨"f", ⟨8, 5⟩⟩]⟩ := by cbv
  rcases hrun : redefining.run ⟨"app.tr", 2, nowhere⟩ (.fresh []) () with ⟨ending, m', s'⟩
  rw [hrun] at hfails
  obtain rfl : ending = _ := hfails
  have hnone : ∀ f d, Table.get? f (Machine.fresh []).functions = some d → d.name = f := by
    intro f d hd
    cases hd
  obtain ⟨-, stmt, -, -, -, calls, -, -, -, -, htrace, -, hplace, hnested, -⟩ :=
    trace_is_call_stack hnone hrun
  exact ⟨_, m', s', rfl, rfl, rfl, stmt, calls, htrace.symm, hplace, hnested⟩

end Stepwise

end ReactiveScript

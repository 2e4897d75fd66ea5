import ReactiveScript.Proofs.Evaluation.Expression
import ReactiveScript.Tree.Names

/-!
# Functions side by side

A variable that a function assigns somewhere can still be read before it is assigned, and is then
looked up outside the function.  `FunctionDef.exposes` finds these variables by going through the
body in the order in which it runs.  Under a coupling, a call is followed if every variable that the
function exposes is, and the same holds of what the function calls.

* `Stmt.assigns`, `Stmt.exposes` — which variables a statement certainly assigns, and which it may
  read before it assigns them.
* `Coupling.Callable` — functions that call each other only, and expose what is followed only.
* `Coupling.Callable.couples_call` — their calls are followed.
-/

set_option autoImplicit false

namespace ReactiveScript

open Eval

namespace Stmt

/-! ## Definite assignment -/

mutual

/-- Whether a variable has a value by the time the next statement follows. -/
def assigns (n : String) : Stmt → Bool
  | .assign _ target _ => target == n
  | .result _ _ => true
  | .choose _ branches otherwise => branchesAssign n branches && blockAssigns n otherwise
  | _ => false

/-- Whether a variable has a value by the end of a block. -/
def blockAssigns (n : String) : List Stmt → Bool
  | [] => false
  | s :: rest => assigns n s || blockAssigns n rest

/-- Whether a variable has a value by the end of every branch. -/
def branchesAssign (n : String) : List (Expr × List Stmt) → Bool
  | [] => true
  | (_, body) :: rest => blockAssigns n body && branchesAssign n rest

end

mutual

/-- Whether a statement may read a variable that it has not assigned. -/
def exposes (n : String) : Stmt → Bool
  | .assign _ _ e => e.names.contains n
  | .expr _ e => e.names.contains n
  | .result _ (some e) => e.names.contains n
  | .choose _ branches otherwise => branchesExpose n branches || blockExposes n otherwise
  | .loop _ target series body =>
    series.names.contains n || (target != n && blockExposes n body)
  | _ => false

/-- Whether a block may read a variable that it has not assigned. -/
def blockExposes (n : String) : List Stmt → Bool
  | [] => false
  | s :: rest => exposes n s || (!assigns n s && blockExposes n rest)

/-- Whether a test or branch may read a variable that it has not assigned. -/
def branchesExpose (n : String) : List (Expr × List Stmt) → Bool
  | [] => false
  | (test, body) :: rest =>
    test.names.contains n || blockExposes n body || branchesExpose n rest

end

/-! ## Definitions inside statements -/

mutual

/-- Whether a statement defines no function. -/
def definesNothing : Stmt → Bool
  | .define .. => false
  | .choose _ branches otherwise => branchesDefineNothing branches && blockDefinesNothing otherwise
  | .loop _ _ _ body => blockDefinesNothing body
  | _ => true

/-- Whether the statements of a block define no function. -/
def blockDefinesNothing : List Stmt → Bool
  | [] => true
  | s :: rest => definesNothing s && blockDefinesNothing rest

/-- Whether the branches of a choice define no function. -/
def branchesDefineNothing : List (Expr × List Stmt) → Bool
  | [] => true
  | (_, body) :: rest => blockDefinesNothing body && branchesDefineNothing rest

end

end Stmt

/-- Whether a call of a function may read a variable before it has a value of the call's own. -/
def FunctionDef.exposes (d : FunctionDef) (n : String) : Bool :=
  !d.params.contains n && Stmt.blockExposes n d.body

/-! ## Variables -/

variable {σ τ : Type} {k : Coupling σ τ}

/-- A variable that a call has no value of its own for is followed. -/
def Coupling.Outer (k : Coupling σ τ) (n : String) : Prop :=
  ∀ span, Couples k (fun _ => True) (k.left.lookup .module n span) (k.right.lookup .module n span)

theorem Setting.lookup_of_local {n : String} {scope : Scope} {v : Value}
    (h : Table.get? n scope.locals = some v) (c : Setting σ) (span : Span) :
    c.lookup scope n span = Eval.value v := by
  rw [lookup, h]

theorem Setting.lookup_of_not_local {n : String} {scope : Scope}
    (h : Table.get? n scope.locals = none) (c : Setting σ) (span : Span) :
    c.lookup scope n span = c.lookup .module n span := by
  rw [lookup, h]
  rfl

/-- A module variable of the left run is followed by its value. -/
theorem Setting.couples_lookup_of_global {n : String} {v : Value}
    (h : Table.get? n k.leftGlobals = some v) (span : Span) :
    Couples k (fun _ => True) (k.left.lookup .module n span) (Eval.value v) := by
  refine .machine (g := fun _ => Eval.value v) fun m hm => ?_
  rw [hm.2, h]
  exact .value trivial

/-- A variable of the call is followed, and any other is if it is followed outside. -/
theorem Setting.couples_lookup {scope : Scope} {n : String}
    (h : Table.has n scope.locals = true ∨ k.Outer n) (span : Span) :
    Couples k (fun _ => True) (k.left.lookup scope n span) (k.right.lookup scope n span) := by
  cases hn : Table.get? n scope.locals with
  | some v =>
    rw [lookup_of_local hn, lookup_of_local hn]
    exact .value trivial
  | none =>
    rw [lookup_of_not_local hn, lookup_of_not_local hn]
    rcases h with h | h
    · rw [Table.has, hn] at h
      cases h
    · exact h span

/-! ## Statements of functions -/

/-- A statement has not lost a variable, and has got certain others. -/
def Flow.Leaves (scope : Scope) (assigned : String → Bool) : Flow → Prop
  | .next scope' => scope'.isModule = false ∧
      ∀ n, Table.has n scope.locals = true ∨ assigned n = true → Table.has n scope'.locals = true
  | .result _ => True

theorem Flow.Leaves.trans {scope scope' : Scope} {assigned assigned' : String → Bool}
    (h : Flow.Leaves scope assigned (.next scope')) {flow : Flow}
    (h' : flow.Leaves scope' assigned') :
    flow.Leaves scope fun n => assigned n || assigned' n := by
  cases flow with
  | result _ => trivial
  | next scope'' =>
    refine ⟨h'.1, fun n hn => h'.2 n ?_⟩
    rw [Bool.or_eq_true] at hn
    rcases hn with hn | hn | hn
    · exact Or.inl (h.2 n (Or.inl hn))
    · exact Or.inl (h.2 n (Or.inr hn))
    · exact Or.inr hn

theorem Flow.Leaves.mono {scope : Scope} {assigned assigned' : String → Bool} {flow : Flow}
    (h : flow.Leaves scope assigned) (hsub : ∀ n, assigned' n = true → assigned n = true) :
    flow.Leaves scope assigned' := by
  cases flow with
  | result _ => trivial
  | next scope' => exact ⟨h.1, fun n hn => h.2 n (hn.imp_right (hsub n))⟩

theorem Flow.leaves_next {scope : Scope} (hscope : scope.isModule = false) :
    Flow.Leaves scope (fun _ => false) (.next scope) :=
  ⟨hscope, fun _ hn => hn.resolve_right Bool.false_ne_true⟩

theorem Flow.leaves_put {scope : Scope} (hscope : scope.isModule = false) (target : String)
    (v : Value) : Flow.Leaves scope (fun n => target == n)
      (.next { scope with locals := Table.put target v scope.locals }) := by
  refine ⟨hscope, fun n hn => ?_⟩
  show (Table.get? n (Table.put target v scope.locals)).isSome = true
  rw [Table.get?_put]
  split
  · rfl
  · rename_i hne
    exact hn.resolve_right fun h => hne (by simpa using h)

theorem Setting.assign_of_call (c : Setting σ) {scope : Scope} (hscope : scope.isModule = false)
    (target : String) (v : Value) :
    c.assign scope target v
      = Eval.value { scope with locals := Table.put target v scope.locals } := by
  rw [assign, hscope]
  rfl

theorem forEach_cons (run : Scope → Value → Eval σ Flow) (v : Value) (vs : List Value)
    (scope : Scope) :
    forEach run (v :: vs) scope = run scope v >>= fun flow => match flow with
      | .next scope => forEach run vs scope
      | .result r => Eval.value (.result r) := by
  funext m s
  show _ = Eval.andThen _ _ m s
  rw [forEach, Eval.andThen]
  dsimp only
  rcases run scope v m s with ⟨(_ | _) | _ | _, m', s'⟩ <;> rfl

theorem couples_forEach {scope : Scope} {run : Scope → Value → Eval σ Flow}
    {run' : Scope → Value → Eval τ Flow}
    (h : ∀ scope' v, Flow.Leaves scope (fun _ => false) (.next scope') →
      Couples k (Flow.Leaves scope fun _ => false) (run scope' v) (run' scope' v))
    (vs : List Value) (scope' : Scope) (hscope' : Flow.Leaves scope (fun _ => false) (.next scope')) :
    Couples k (Flow.Leaves scope fun _ => false) (forEach run vs scope')
      (forEach run' vs scope') := by
  induction vs generalizing scope' with
  | nil =>
    refine Couples.still fun flow hflow => ?_
    cases hflow
    exact hscope'
  | cons v vs ih =>
    rw [forEach_cons, forEach_cons]
    refine .bind (h scope' v hscope') fun flow hflow => ?_
    cases flow with
    | next scope'' => exact ih scope'' hflow
    | result r => exact .value trivial

section Statements

variable {invoke : Invocation σ} {invoke' : Invocation τ}

/-- The calls of a function are followed. -/
def Coupling.Calls (k : Coupling σ τ) (invoke : Invocation σ) (invoke' : Invocation τ)
    (f : String) : Prop :=
  ∀ args span, Couples k (fun _ => True) (k.left.call invoke f args span)
    (k.right.call invoke' f args span)

/-- An expression inside a function is followed. -/
theorem Expr.couples_of_exposed {e : Expr} {scope : Scope}
    (hcalls : ∀ f, .inr f ∈ e.mentions → k.Calls invoke invoke' f)
    (hnames : ∀ n, e.names.contains n = true → Table.has n scope.locals = true ∨ k.Outer n) :
    Couples k (fun _ => True) (e.evalWith k.left invoke scope)
      (e.evalWith k.right invoke' scope) := by
  have h : Couples k (fun _ => True) ((e.mapWith id id).evalWith k.left invoke scope)
      ((e.mapWith id id).evalWith k.right invoke' scope) := by
    refine couples_evalWith e ?_
    rintro (n | f) hx
    · exact Setting.couples_lookup (hnames n (List.contains_iff_mem.2 (mem_names.2 hx)))
    · exact hcalls f hx
  rwa [mapWith_id] at h

namespace Stmt

mutual

/-- **A statement of a function is followed if its calls are and what it exposes has a value or is
followed outside.** -/
theorem couples_execWith : (s : Stmt) → (scope : Scope) → scope.isModule = false →
    s.definesNothing = true → (∀ f, .inr f ∈ s.mentions → k.Calls invoke invoke' f) →
    (∀ n, s.exposes n = true → Table.has n scope.locals = true ∨ k.Outer n) →
    Couples k (Flow.Leaves scope fun n => s.assigns n) (s.execWith k.left invoke scope)
      (s.execWith k.right invoke' scope)
  | .assign _ target e, scope, hscope, _, hcalls, hnames => by
    rw [execWith, execWith]
    refine .bind (Expr.couples_of_exposed hcalls hnames) fun v _ => ?_
    rw [Setting.assign_of_call _ hscope, Setting.assign_of_call _ hscope]
    exact .bind (.value (P := fun scope' => Flow.Leaves scope _ (.next scope'))
      (Flow.leaves_put hscope target v)) fun scope' hscope' => .value hscope'
  | .expr _ e, scope, hscope, _, hcalls, hnames => by
    rw [execWith, execWith]
    refine .bind (Expr.couples_of_exposed hcalls hnames) fun v _ => ?_
    exact .value (Flow.leaves_next hscope)
  | .define .., _, _, hplain, _, _ => by cases hplain
  | .result _ none, _, _, _, _, _ => .value trivial
  | .result _ (some e), scope, _, _, hcalls, hnames => by
    rw [execWith, execWith]
    exact .bind (Expr.couples_of_exposed hcalls hnames) fun v _ => .value trivial
  | .choose _ branches otherwise, scope, hscope, hplain, hcalls, hnames => by
    obtain ⟨hbranches, hotherwise⟩ := (Bool.and_eq_true _ _).mp hplain
    rw [execWith, execWith]
    refine couples_execBranches branches _ _ _ scope hscope hbranches
      (fun f hf => hcalls f (List.mem_append_left _ hf))
      (fun n hn => hnames n (by rw [exposes, hn]; rfl)) ?_
    exact couples_execBlock otherwise scope hscope hotherwise
      (fun f hf => hcalls f (List.mem_append_right _ hf))
      fun n hn => hnames n (by rw [exposes, hn, Bool.or_true])
  | .loop span target series body, scope, hscope, hplain, hcalls, hnames => by
    rw [execWith, execWith]
    refine .bind (Expr.couples_of_exposed (fun f hf => hcalls f (List.mem_append_left _ hf))
      fun n hn => hnames n (by rw [exposes, hn]; rfl)) fun v _ => ?_
    refine .bind (.ofChecked (P := fun _ => True) series.span fun _ _ => trivial) fun items _ => ?_
    refine couples_forEach (fun scope' item hscope' => ?_) items scope (Flow.leaves_next hscope)
    refine .bind (Setting.couples_checkDeadline k span) fun _ _ => ?_
    rw [Setting.assign_of_call _ hscope'.1, Setting.assign_of_call _ hscope'.1]
    refine .bind (.value (P := fun scope'' => Flow.Leaves scope (fun n => target == n)
      (.next scope'')) ?_) fun scope'' hscope'' => ?_
    · exact (hscope'.trans (Flow.leaves_put hscope'.1 target item)).mono fun n hn => by
        rw [hn, Bool.or_true]
    · refine (couples_execBlock body scope'' hscope''.1 hplain
        (fun f hf => hcalls f (List.mem_append_right _ hf)) fun n hn => ?_).mono fun flow hflow =>
          (hscope''.trans hflow).mono fun _ h => by cases h
      by_cases htarget : (target == n) = true
      · exact Or.inl (hscope''.2 n (Or.inr htarget))
      · refine (hnames n ?_).imp_left fun h => hscope''.2 n (Or.inl h)
        rw [exposes, hn, Bool.and_true, bne, eq_false_of_ne_true htarget, Bool.not_false,
          Bool.or_true]
  | .pass _, scope, hscope, _, _, _ => .value (Flow.leaves_next hscope)

theorem couples_execBlock : (ss : List Stmt) → (scope : Scope) → scope.isModule = false →
    blockDefinesNothing ss = true → (∀ f, .inr f ∈ blockMentions ss → k.Calls invoke invoke' f) →
    (∀ n, blockExposes n ss = true → Table.has n scope.locals = true ∨ k.Outer n) →
    Couples k (Flow.Leaves scope fun n => blockAssigns n ss) (execBlock k.left invoke ss scope)
      (execBlock k.right invoke' ss scope)
  | [], scope, hscope, _, _, _ => .value (Flow.leaves_next hscope)
  | s :: rest, scope, hscope, hplain, hcalls, hnames => by
    obtain ⟨hs, hrest⟩ := (Bool.and_eq_true _ _).mp hplain
    rw [execBlock, execBlock]
    refine .bind (couples_execWith s scope hscope hs
      (fun f hf => hcalls f (List.mem_append_left _ hf))
      fun n hn => hnames n (by rw [blockExposes, hn]; rfl)) fun flow hflow => ?_
    cases flow with
    | result v => exact .value trivial
    | next scope' =>
      refine (couples_execBlock rest scope' hflow.1 hrest
        (fun f hf => hcalls f (List.mem_append_right _ hf)) fun n hn => ?_).mono fun flow' hflow' =>
          hflow.trans hflow'
      by_cases hassigns : s.assigns n = true
      · exact Or.inl (hflow.2 n (Or.inr hassigns))
      · refine (hnames n ?_).imp_left fun h => hflow.2 n (Or.inl h)
        rw [blockExposes, hn, eq_false_of_ne_true hassigns, Bool.not_false, Bool.and_true,
          Bool.or_true]

theorem couples_execBranches : (bs : List (Expr × List Stmt)) → (assigned : String → Bool) →
    (other : Scope → Eval σ Flow) → (other' : Scope → Eval τ Flow) → (scope : Scope) →
    scope.isModule = false → branchesDefineNothing bs = true →
    (∀ f, .inr f ∈ branchMentions bs → k.Calls invoke invoke' f) →
    (∀ n, branchesExpose n bs = true → Table.has n scope.locals = true ∨ k.Outer n) →
    Couples k (Flow.Leaves scope assigned) (other scope) (other' scope) →
    Couples k (Flow.Leaves scope fun n => branchesAssign n bs && assigned n)
      (execBranches k.left invoke bs other scope) (execBranches k.right invoke' bs other' scope)
  | [], assigned, _, _, _, _, _, _, _, hother =>
    hother.mono fun _ h => h.mono fun _ hn => hn
  | (test, body) :: rest, assigned, other, other', scope, hscope, hplain, hcalls, hnames, hother => by
    obtain ⟨hbody, hrest⟩ := (Bool.and_eq_true _ _).mp hplain
    rw [branchMentions] at hcalls
    rw [execBranches, execBranches]
    refine .bind (Expr.couples_of_exposed
      (fun f hf => hcalls f (List.mem_append_left _ (List.mem_append_left _ hf)))
      fun n hn => hnames n (by rw [branchesExpose, hn]; rfl)) fun v _ => ?_
    split
    · refine (couples_execBlock body scope hscope hbody
        (fun f hf => hcalls f (List.mem_append_left _ (List.mem_append_right _ hf)))
        fun n hn => hnames n (by rw [branchesExpose, hn, Bool.or_true, Bool.true_or])).mono
          fun flow hflow => hflow.mono fun n hn => ?_
      rw [branchesAssign, Bool.and_eq_true, Bool.and_eq_true] at hn
      exact hn.1.1
    · refine (couples_execBranches rest assigned other other' scope hscope hrest
        (fun f hf => hcalls f (List.mem_append_right _ hf))
        (fun n hn => hnames n (by rw [branchesExpose, hn, Bool.or_true])) hother).mono
          fun flow hflow => hflow.mono fun n hn => ?_
      rw [branchesAssign, Bool.and_eq_true, Bool.and_eq_true] at hn
      rw [Bool.and_eq_true]
      exact ⟨hn.1.2, hn.2⟩

end

end Stmt

end Statements

/-! ## Calls of functions -/

theorem Arguments.has_complete {function p : String} {bound locals : Table String Value}
    {params : List String} (h : complete function bound params = .ok locals) (hp : p ∈ params) :
    Table.has p locals = true := by
  induction params generalizing locals with
  | nil => cases hp
  | cons q params ih =>
    rw [complete] at h
    split at h
    · cases hrest : complete function bound params with
      | error e =>
        rw [hrest] at h
        cases h
      | ok rest =>
        rw [hrest] at h
        cases h
        rw [Table.has, Table.get?]
        split
        · rfl
        · rename_i hne
          exact ih hrest ((List.mem_cons.1 hp).resolve_left fun h => hne h.symm)
    · cases h

/-- Every parameter of a call has a value. -/
theorem Arguments.has_bindAll {d : FunctionDef} {args : Arguments} {locals : Table String Value}
    (h : args.bindAll d = .ok locals) {p : String} (hp : p ∈ d.params) :
    Table.has p locals = true := by
  rw [bindAll] at h
  split at h
  · cases h
  · cases hbound : bindKeywords d.name d.params
      (fun k => .validation (d.name ++ "() got an unexpected keyword argument '" ++ k ++ "'")
        d.params) (d.params.zip args.positional) args.keywords with
    | error e =>
      rw [hbound] at h
      cases h
    | ok bound =>
      rw [hbound] at h
      exact has_complete h hp

/-- How a call ends whose body ended in some way. -/
def Ending.ofBody (function : String) (span : Span) : Ending EvalError Flow → Ending EvalError Value
  | .value (.result v) => .value v
  | .value (.next _) => .value .null
  | .error e => .error { e with trace := e.trace ++ [⟨function, span⟩] }
  | .panic p => .panic p

/-- The machine after a call whose body ended in some way. -/
def Machine.surface (m : Machine) : Ending EvalError Flow → Machine
  | .panic _ => m
  | _ => { m with depth := m.depth - 1 }

theorem inCall_eq (function : String) (span : Span) (body : Eval σ Flow) (m : Machine) (s : σ) :
    inCall function span body m s =
      ((body { m with depth := m.depth + 1 } s).1.ofBody function span,
        (body { m with depth := m.depth + 1 } s).2.1.surface (body { m with depth := m.depth + 1 } s).1,
        (body { m with depth := m.depth + 1 } s).2.2) := by
  rw [inCall]
  rcases body { m with depth := m.depth + 1 } s with ⟨(_ | _) | _ | _, m', s'⟩ <;> rfl

theorem isValue_ofBody (function : String) (span : Span) (e : Ending EvalError Flow) :
    (e.ofBody function span).isValue = e.isValue := by
  rcases e with (_ | _) | _ | _ <;> rfl

theorem Machine.surface_eq (m : Machine) (e : Ending EvalError Flow) :
    ∃ depth, m.surface e = { m with depth } := by
  cases e with
  | panic p => exact ⟨m.depth, rfl⟩
  | _ => exact ⟨m.depth - 1, rfl⟩

theorem Coupling.mirror_surface (k : Coupling σ τ) (m : Machine) (e : Ending EvalError Flow) :
    k.mirror (m.surface e) = (k.mirror m).surface e := by
  cases e <;> rfl

theorem couples_inCall (function : String) (span : Span) {P : Flow → Prop} {body : Eval σ Flow}
    {body' : Eval τ Flow} (h : Couples k P body body') :
    Couples k (fun _ => True) (inCall function span body) (inCall function span body') := by
  have hdeeper : ∀ m : Machine, k.Own m → k.Own { m with depth := m.depth + 1 } := fun _ hm => hm
  refine ⟨fun m s hm => ?_, fun m s b hm hc => ?_, fun m s a hm ha => ?_, fun _ _ _ _ _ => trivial,
    fun m s t hm hst hc => ?_⟩
  · have hown := h.own _ s (hdeeper m hm)
    rw [inCall_eq]
    obtain ⟨depth, hsurface⟩ := Machine.surface_eq (body { m with depth := m.depth + 1 } s).2.1
      (body { m with depth := m.depth + 1 } s).1
    simp only [hsurface]
    exact hown
  · rw [inCall_eq] at hc
    exact h.counted _ s b (hdeeper m hm) hc
  · have hdepth := h.depth_eq { m with depth := m.depth + 1 } s
    rw [inCall_eq] at ha ⊢
    rcases hbody : body { m with depth := m.depth + 1 } s with ⟨flow | e | p, m', s'⟩ <;>
      rw [hbody] at ha hdepth
    · have heq : m'.depth = m.depth + 1 := hdepth flow (hdeeper m hm) rfl
      show m'.depth - 1 = m.depth
      rw [heq, Nat.add_sub_cancel]
    · cases ha
    · cases ha
  · rw [inCall_eq function span body] at hc ⊢
    simp only [isValue_ofBody] at hc
    obtain ⟨t', ht', hnear⟩ := h.follows _ s t (hdeeper m hm) hst hc
    have hmirror : { k.mirror m with depth := (k.mirror m).depth + 1 }
        = k.mirror { m with depth := m.depth + 1 } := rfl
    rw [inCall_eq function span body', hmirror, ht', ← k.mirror_surface]
    exact ⟨t', rfl, hnear⟩

/-- Functions that call each other only, and whose calls are followed as far as the surroundings
are concerned. -/
structure Coupling.Callable (k : Coupling σ τ) (names : String → Prop) : Prop where
  /-- The functions are the same on both sides, or calling them does not count. -/
  same : ∀ f, names f → Table.get? f k.rightFunctions = Table.get? f k.leftFunctions ∨
    Table.get? f k.leftFunctions = none ∧ isBuiltin f = false ∧ ∀ s, ¬ k.counts false s
  /-- They define no functions. -/
  definesNothing : ∀ f d, names f → Table.get? f k.leftFunctions = some d →
    Stmt.blockDefinesNothing d.body = true
  /-- They call each other only. -/
  closed : ∀ f d, names f → Table.get? f k.leftFunctions = some d →
    ∀ g, .inr g ∈ Stmt.blockMentions d.body → names g
  /-- What they expose is followed. -/
  outer : ∀ f d, names f → Table.get? f k.leftFunctions = some d →
    ∀ n, d.exposes n = true → k.Outer n

namespace Coupling.Callable

variable {names : String → Prop}

/-- A call by name is followed if the function it leads to is. -/
theorem couples_call_of_invoke (h : k.Callable names) {invoke : Invocation σ}
    {invoke' : Invocation τ} {f : String} (hf : names f)
    (hinvoke : ∀ d, Table.get? f k.leftFunctions = some d → ∀ args span,
      Couples k (fun _ => True) (invoke d args span) (invoke' d args span)) :
    k.Calls invoke invoke' f := by
  intro args span
  rw [Setting.call, Setting.call]
  refine .bind (Setting.couples_checkDeadline k span) fun _ _ => .machine fun m hm => ?_
  rw [hm.1]
  dsimp only [Coupling.mirror]
  rcases h.same f hf with hsame | ⟨hnone, hbuiltin, hno⟩
  · rw [hsame]
    cases hd : Table.get? f k.leftFunctions with
    | some d => exact hinvoke d hd args span
    | none => exact Setting.couples_callBuiltin k f args span
  · rw [hnone]
    simp only
    rw [Setting.callBuiltin_eq_fail hbuiltin]
    exact .fail_left _ span hno _

theorem couples_invoke (h : k.Callable names) (n : Nat) {f : String} (hf : names f)
    {d : FunctionDef} (hd : Table.get? f k.leftFunctions = some d) (args : Arguments)
    (span : Span) :
    Couples k (fun _ => True) (FunctionDef.invoke k.left n d args span)
      (FunctionDef.invoke k.right n d args span) := by
  induction n generalizing f d args span with
  | zero =>
    rw [FunctionDef.invoke, FunctionDef.invoke, k.limit_eq]
    exact .fail _ span
  | succ n ih =>
    rw [FunctionDef.invoke, FunctionDef.invoke]
    refine .bind (.ofChecked (P := fun locals => ∀ p ∈ d.params, Table.has p locals = true) span
      fun locals hlocals p hp => Arguments.has_bindAll hlocals hp) fun locals hlocals => ?_
    refine couples_inCall _ span (Stmt.couples_execBlock d.body _ rfl
      (h.definesNothing f d hf hd) (fun g hg => ?_) fun n hn => ?_)
    · exact h.couples_call_of_invoke (h.closed f d hf hd g hg)
        fun d' hd' args span => ih (h.closed f d hf hd g hg) hd' args span
    · by_cases hparam : n ∈ d.params
      · exact Or.inl (hlocals n hparam)
      · refine Or.inr (h.outer f d hf hd n ?_)
        rw [FunctionDef.exposes, hn, Bool.and_true, List.contains_eq_mem, decide_eq_false hparam]
        rfl

/-- **Calls of the functions are followed, however deep they may nest.** -/
theorem couples_call (h : k.Callable names) (n : Nat) {f : String} (hf : names f) :
    k.Calls (FunctionDef.invoke k.left n) (FunctionDef.invoke k.right n) f :=
  h.couples_call_of_invoke hf fun _ hd args span => h.couples_invoke n hf hd args span

end Coupling.Callable

end ReactiveScript

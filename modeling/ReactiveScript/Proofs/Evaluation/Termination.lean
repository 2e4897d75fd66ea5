import ReactiveScript.Proofs.Evaluation.Panics

/-!
# Every evaluation ends

Calls jump from one syntax tree into another, so nothing in a script gets smaller as it runs.  What
does is the number of calls that may still be made inside each other, then the tree that is gone
through, and for a loop the items that are left.  The evaluator follows exactly this order, so it is
enough that the abstract machine does what the evaluator says: in finitely many steps, and with the
depth of calls within the limit at each of them.

* `Stepwise.Performs` — what follows a move is what a computation says.
* `Stepwise.Task.outcome` — what the evaluator says about a task.
* `Stepwise.Task.performs` — the machine does what the evaluator says.
* `Stepwise.Ends` — a task ends on top of whatever waits for it.
* `Stepwise.evaluation_ends` — the theorem.
-/

set_option autoImplicit false

namespace ReactiveScript

variable {σ : Type}

open Eval

namespace Stepwise

variable {c : Setting σ} {bound depth : Nat} {a b : Kind}

/-! ## What follows a move -/

/-- The depth of calls has been brought back, unless there was a panic. -/
def Restored (depth : Nat) {α : Type} : Ending EvalError α × Machine × σ → Prop
  | (.value _, m, _) => m.depth = depth
  | (.error _, m, _) => m.depth = depth
  | (.panic _, _, _) => True

theorem Restored.of_level {α : Type} {x : Eval σ α} (hx : Level x) (m : Machine) (s : σ) :
    Restored m.depth (x m s) := by
  have hdepth := hx m s
  rcases hxm : x m s with ⟨a | e | p, m', s'⟩ <;> rw [hxm] at hdepth
  · exact hdepth
  · exact hdepth
  · trivial

/-- Whatever waits, what follows a move at some depth is what a computation says: the steps lead to
its ending, and the depth is brought back. -/
def Performs (c : Setting σ) (bound depth : Nat) (x : Eval σ (Move a)) (y : Eval σ a.type) : Prop :=
  depth ≤ bound → ∀ {r : Kind} (k : Stack a r) (m : Machine) (s : σ), m.depth = depth →
    Leads c bound (.onto (x m s) k) (.after (y m s) k) ∧ Restored depth (y m s)

namespace Performs

theorem give (y : a.type) :
    Performs c bound depth (Eval.value (.give y)) (Eval.value y : Eval σ a.type) := by
  rintro hbound r k m s rfl
  exact ⟨.refl hbound, rfl⟩

theorem fail (kind : EvalError.Kind) (span : Span) :
    Performs c bound depth (Eval.fail kind span) (Eval.fail kind span : Eval σ a.type) := by
  rintro hbound r k m s rfl
  exact ⟨.refl hbound, rfl⟩

/-- Something that leaves the depth alone comes first on both sides. -/
theorem act {α : Type} {p : Eval σ α} (hp : Level p) {x : α → Eval σ (Move a)}
    {y : α → Eval σ a.type} (h : ∀ v, Performs c bound depth (x v) (y v)) :
    Performs c bound depth (p >>= x) (p >>= y) := by
  rintro hbound r k m s rfl
  have hdepth := hp m s
  rw [bind_apply p x, bind_apply p y]
  rcases hpm : p m s with ⟨v | e | q, m', s'⟩ <;> rw [hpm] at hdepth
  · exact h v hbound k m' s' hdepth
  · exact ⟨.refl (le_of_eq_of_le hdepth hbound), hdepth⟩
  · exact ⟨.refl (le_of_eq_of_le hdepth hbound), trivial⟩

theorem giving {y : Eval σ a.type} (hy : Level y) : Performs c bound depth (giving y) y := by
  rintro hbound r k m s rfl
  have hrestored := Restored.of_level hy m s
  have hdepth := hy m s
  rw [Stepwise.giving, bind_apply]
  rcases hym : y m s with ⟨v | e | p, m', s'⟩ <;> rw [hym] at hdepth hrestored <;>
    exact ⟨.refl (le_of_eq_of_le hdepth hbound), hrestored⟩

/-- Another task takes over. -/
theorem go {t : Task a} {y : Eval σ a.type} (h : Performs c bound depth (t.begin c) y) :
    Performs c bound depth (Eval.value (.go t)) y := by
  rintro hbound r k m s rfl
  obtain ⟨hleads, hrestored⟩ := h hbound k m s rfl
  exact ⟨.step hbound rfl hleads, hrestored⟩

/-- A frame waits for another task and goes on with its outcome. -/
theorem push {t : Task a} {frame : Frame a b} {y : Eval σ a.type} {f : a.type → Eval σ b.type}
    (h : Performs c bound depth (t.begin c) y)
    (hf : ∀ v, Performs c bound depth (frame.resume c v) (f v))
    (hframe : ∀ e m, frame.pass e m = (e, m) := by intros; rfl) :
    Performs c bound depth (Eval.value (.push frame t)) (y >>= f) := by
  rintro hbound r k m s rfl
  obtain ⟨hleads, hrestored⟩ := h hbound (.cons frame k) m s rfl
  rw [bind_apply]
  rcases hym : y m s with ⟨v | e | p, m', s'⟩ <;> rw [hym] at hleads hrestored
  · have hdepth : m'.depth = m.depth := hrestored
    obtain ⟨hleads', hrestored'⟩ := hf v hbound k m' s' hdepth
    have hresumed : Leads c bound (.resume v (.cons frame k) m' s') (.after (f v m' s') k) :=
      .step (le_of_eq_of_le hdepth hbound) rfl hleads'
    exact ⟨.step hbound rfl (hleads.trans hresumed), hrestored'⟩
  · have hdepth : m'.depth = m.depth := hrestored
    refine ⟨.step hbound rfl (hleads.trans (.step (le_of_eq_of_le hdepth hbound) rfl ?_)), hdepth⟩
    rw [hframe]
    exact .refl (le_of_eq_of_le hdepth hbound)
  · exact ⟨.step hbound rfl hleads, hrestored⟩

end Performs

/-! ## Tasks -/

/-- What the evaluator says about a task, with a given way to call functions of the script. -/
def Task.outcome (c : Setting σ) (invoke : Invocation σ) : {a : Kind} → Task a → Eval σ a.type
  | _, .expr scope e => e.evalWith c invoke scope
  | _, .all scope es => Expr.evalAll c invoke scope es
  | _, .pieces scope text ps => Expr.evalPieces c invoke scope text ps
  | _, .entries scope span done es => Expr.evalEntries c invoke scope span done es
  | _, .keywords scope done es => Expr.evalKeywords c invoke scope done es
  | _, .call f args span => c.call invoke f args span
  | _, .invoke d args span => invoke d args span
  | _, .stmt s scope => s.execWith c invoke scope
  | _, .block ss scope => Stmt.execBlock c invoke ss scope
  | _, .branches bs otherwise scope =>
    Stmt.execBranches c invoke bs (Stmt.execBlock c invoke otherwise) scope
  | _, .items span target body vs scope =>
    forEach (fun scope v => do
      c.checkDeadline span
      let scope ← c.assign scope target v
      Stmt.execBlock c invoke body scope) vs scope
  | _, .script ss => Stmt.runAll c ss

/-- At a depth, the machine does what the evaluator says about a task. -/
def Follows (c : Setting σ) (bound depth : Nat) (invoke : Invocation σ) (t : Task a) : Prop :=
  Performs c bound depth (t.begin c) (t.outcome c invoke)

/-- At a depth, the machine does what the evaluator says about calls of functions of the script. -/
def Calls (c : Setting σ) (bound depth : Nat) (invoke : Invocation σ) : Prop :=
  ∀ d args span, Follows c bound depth invoke (.invoke d args span)

section Calls

variable {invoke : Invocation σ}

/-- A loop ends because it goes through the items that its collection had at the start. -/
theorem follows_items (span : Span) (target : String) (body : List Stmt)
    (hbody : ∀ scope, Follows c bound depth invoke (.block body scope)) (vs : List Value)
    (scope : Scope) : Follows c bound depth invoke (.items span target body vs scope) := by
  induction vs generalizing scope with
  | nil => exact .give _
  | cons v vs ih =>
    rw [Follows, Task.outcome, forEach_cons, bind_bind]
    refine .act (.of_local (c.local_checkDeadline trivial)) fun _ => ?_
    rw [bind_bind]
    refine .act (.of_local (c.local_assign scope target v)) fun scope => ?_
    refine .push (hbody scope) fun flow => ?_
    cases flow with
    | next scope => exact .go (ih scope)
    | result r => exact .give _

theorem follows_call (h : Calls c bound depth invoke) (f : String) (args : Arguments)
    (span : Span) : Follows c bound depth invoke (.call f args span) := by
  rw [Follows, Task.outcome, Task.begin, Setting.call]
  refine .act (.of_local (c.local_checkDeadline trivial)) fun _ => .act .machine fun m => ?_
  cases Table.get? f m.functions with
  | some d => exact .go (h d args span)
  | none => exact .giving (.of_local (c.local_callBuiltin trivial f args fun _ _ => trivial))

mutual

theorem follows_expr (h : Calls c bound depth invoke) (scope : Scope) : (e : Expr) →
    Follows c bound depth invoke (.expr scope e)
  | .literal _ v => Performs.give (a := .value) v
  | .name span n => .giving (.of_local (c.local_lookup trivial scope n))
  | .format _ ps => by
    rw [Follows, Task.outcome, Expr.evalWith]
    exact .push (follows_pieces h scope ps "") fun s => .give _
  | .list _ es => by
    rw [Follows, Task.outcome, Expr.evalWith]
    exact .push (follows_all h scope es) fun vs => .give _
  | .dict span es => by
    rw [Follows, Task.outcome, Expr.evalWith]
    exact .push (follows_entries h scope span es []) fun done => .give _
  | .unary span op e => by
    rw [Follows, Task.outcome, Expr.evalWith]
    exact .push (follows_expr h scope e) fun v => .giving (.ofChecked span _)
  | .binary span op l r => by
    rw [Follows, Task.outcome, Expr.evalWith]
    refine .push (follows_expr h scope l) fun v => ?_
    exact .push (follows_expr h scope r) fun w => .giving (.ofChecked span _)
  | .logical _ op l r => by
    rw [Follows, Task.outcome, Expr.evalWith]
    refine .push (follows_expr h scope l) fun v => ?_
    cases op <;> rw [Frame.resume] <;> cases Value.isTruthy v
    · exact .give v
    · exact .go (follows_expr h scope r)
    · exact .go (follows_expr h scope r)
    · exact .give v
  | .call span f args kws => by
    rw [Follows, Task.outcome, Expr.evalWith]
    refine .push (follows_all h scope args) fun vs => ?_
    exact .push (follows_keywords h scope kws []) fun done => .go (follows_call h f _ span)
  | .index span e i => by
    rw [Follows, Task.outcome, Expr.evalWith]
    refine .push (follows_expr h scope e) fun v => ?_
    exact .push (follows_expr h scope i) fun w => .giving (.ofChecked span _)
  | .attribute span e field => by
    rw [Follows, Task.outcome, Expr.evalWith]
    exact .push (follows_expr h scope e) fun v => .giving (.ofChecked span _)

theorem follows_pieces (h : Calls c bound depth invoke) (scope : Scope) :
    (ps : List Piece) → (text : String) → Follows c bound depth invoke (.pieces scope text ps)
  | [], text => Performs.give (a := .text) text
  | .text s :: ps, text => by
    rw [Follows, Task.outcome, Expr.evalPieces]
    exact .go (follows_pieces h scope ps (text ++ s))
  | .hole e places :: ps, text => by
    rw [Follows, Task.outcome, Expr.evalPieces]
    refine .push (follows_expr h scope e) fun v => ?_
    refine .act (.of_local (local_formatted v places fun _ _ _ _ _ => trivial)) fun s => ?_
    exact .go (follows_pieces h scope ps (text ++ s))

theorem follows_all (h : Calls c bound depth invoke) (scope : Scope) : (es : List Expr) →
    Follows c bound depth invoke (.all scope es)
  | [] => Performs.give (a := .values) []
  | e :: es => by
    rw [Follows, Task.outcome, Expr.evalAll]
    refine .push (follows_expr h scope e) fun v => ?_
    exact .push (follows_all h scope es) fun vs => Performs.give (a := .values) (v :: vs)

theorem follows_entries (h : Calls c bound depth invoke) (scope : Scope) (span : Span) :
    (es : List (Expr × Expr)) → (done : Table String Value) →
    Follows c bound depth invoke (.entries scope span done es)
  | [], done => Performs.give (a := .entries) done
  | (k, e) :: es, done => by
    rw [Follows, Task.outcome, Expr.evalEntries]
    refine .push (follows_expr h scope k) fun v => .act (.ofChecked span _) fun key => ?_
    exact .push (follows_expr h scope e) fun w => .go (follows_entries h scope span es _)

theorem follows_keywords (h : Calls c bound depth invoke) (scope : Scope) :
    (es : List (String × Expr)) → (done : Table String Value) →
    Follows c bound depth invoke (.keywords scope done es)
  | [], done => Performs.give (a := .entries) done
  | (k, e) :: es, done => by
    rw [Follows, Task.outcome, Expr.evalKeywords]
    exact .push (follows_expr h scope e) fun v => .go (follows_keywords h scope es _)

end

mutual

theorem follows_stmt (h : Calls c bound depth invoke) : (s : Stmt) → (scope : Scope) →
    Follows c bound depth invoke (.stmt s scope)
  | .assign _ target e, scope => by
    rw [Follows, Task.outcome, Stmt.execWith]
    refine .push (follows_expr h scope e) fun v => ?_
    exact .act (.of_local (c.local_assign scope target v)) fun scope => .give _
  | .expr _ e, scope => by
    rw [Follows, Task.outcome, Stmt.execWith]
    exact .push (follows_expr h scope e) fun v => .give _
  | .define .., scope => by
    rw [Follows, Task.outcome, Stmt.execWith, Task.begin, beginStmt]
    refine .act (.change ?_) fun _ => .give _
    exact fun _ => rfl
  | .result _ none, _ => .give _
  | .result _ (some e), scope => by
    rw [Follows, Task.outcome, Stmt.execWith]
    exact .push (follows_expr h scope e) fun v => .give _
  | .choose _ bs otherwise, scope => by
    rw [Follows, Task.outcome, Stmt.execWith]
    exact .go (follows_branches h bs otherwise (follows_block h otherwise) scope)
  | .loop span target series body, scope => by
    rw [Follows, Task.outcome, Stmt.execWith]
    refine .push (follows_expr h scope series) fun v => .act (.ofChecked _ _) fun vs => ?_
    exact .go (follows_items span target body (follows_block h body) vs scope)
  | .pass _, _ => .give _

theorem follows_block (h : Calls c bound depth invoke) : (ss : List Stmt) → (scope : Scope) →
    Follows c bound depth invoke (.block ss scope)
  | [], _ => .give _
  | s :: rest, scope => by
    rw [Follows, Task.outcome, Stmt.execBlock]
    refine .push (follows_stmt h s scope) fun flow => ?_
    cases flow with
    | next scope => exact .go (follows_block h rest scope)
    | result v => exact .give _

theorem follows_branches (h : Calls c bound depth invoke) :
    (bs : List (Expr × List Stmt)) → (otherwise : List Stmt) →
    (∀ scope, Follows c bound depth invoke (.block otherwise scope)) → (scope : Scope) →
    Follows c bound depth invoke (.branches bs otherwise scope)
  | [], _, hother, scope => .go (hother scope)
  | (test, body) :: rest, otherwise, hother, scope => by
    rw [Follows, Task.outcome, Stmt.execBranches]
    refine .push (follows_expr h scope test) fun v => ?_
    rw [Frame.resume]
    split
    · exact .go (follows_block h body scope)
    · exact .go (follows_branches h rest otherwise hother scope)

end

end Calls

/-! ## Functions and scripts -/

/-- A call goes one level deeper for the body, and comes back with a value and with an error. -/
theorem performs_inCall {function : String} {span : Span} {ss : List Stmt} {scope : Scope}
    {y : Eval σ Flow} (h : Performs c bound (depth + 1) ((Task.block ss scope).begin c) y)
    (hbound : depth + 1 ≤ bound) :
    Performs c bound depth
      (Eval.change (fun m => { m with depth := m.depth + 1 }) >>= fun _ =>
        Eval.value (.push (.body function span) (.block ss scope)))
      (inCall function span y) := by
  rintro - r k m s rfl
  obtain ⟨hleads, hrestored⟩ := h hbound (.cons (.body function span) k)
    { m with depth := m.depth + 1 } s rfl
  have hstart : Leads c bound
      (.begin (.block ss scope) (.cons (.body function span) k) { m with depth := m.depth + 1 } s)
      (.after (a := .flow) (y { m with depth := m.depth + 1 } s)
        (.cons (.body function span) k)) :=
    .step hbound rfl hleads
  rw [inCall]
  rcases hym : y { m with depth := m.depth + 1 } s with ⟨flow | e | p, m', s'⟩ <;>
    rw [hym] at hstart hrestored
  · have hdepth : m'.depth = m.depth + 1 := hrestored
    have hback : m'.depth - 1 = m.depth := by omega
    have hbelow : m'.depth - 1 ≤ bound := by omega
    cases flow <;>
      exact ⟨hstart.trans (.step (le_of_eq_of_le hdepth hbound) rfl (.refl hbelow)), hback⟩
  · have hdepth : m'.depth = m.depth + 1 := hrestored
    have hback : m'.depth - 1 = m.depth := by omega
    have hbelow : m'.depth - 1 ≤ bound := by omega
    exact ⟨hstart.trans (.step (le_of_eq_of_le hdepth hbound) rfl (.refl hbelow)), hback⟩
  · exact ⟨hstart, hrestored⟩

/-- No function is entered once the limit has been reached. -/
theorem enter_of_limit_le {m : Machine} (h : c.limit ≤ m.depth) (d : FunctionDef)
    (args : Arguments) (span : Span) (s : σ) :
    enter c d args span m s = Eval.fail (.recursion c.limit) span m s := by
  show (if c.limit ≤ m.depth then _ else _ : Eval σ _) m s = _
  rw [if_pos h]

/-- A function is entered one level deeper once its arguments have been bound. -/
theorem enter_of_lt_limit {m : Machine} (h : m.depth < c.limit) (d : FunctionDef)
    (args : Arguments) (span : Span) (s : σ) :
    enter c d args span m s = (Eval.ofChecked span (args.bindAll d) >>= fun locals =>
      Eval.change (fun m => { m with depth := m.depth + 1 }) >>= fun _ =>
        Eval.value (.push (.body d.name span) (.block d.body (Scope.ofLocals locals)))) m s := by
  show (if c.limit ≤ m.depth then _ else _ : Eval σ _) m s = _
  rw [if_neg (Nat.not_le.2 h)]

/-- **Calls end, however deep they may nest.**  The induction is on the number of calls that may
still be made inside each other. -/
theorem calls_invoke (hlimit : c.limit ≤ bound) :
    Calls c bound depth (FunctionDef.invoke c (c.limit - depth)) := by
  generalize hn : c.limit - depth = n
  induction n generalizing depth with
  | zero =>
    rintro d args span hbound r k m s rfl
    rw [Task.begin, enter_of_limit_le (by omega)]
    exact Performs.fail (.recursion c.limit) span hbound k m s rfl
  | succ n ih =>
    rintro d args span hbound r k m s rfl
    have hdeeper : Calls c bound (m.depth + 1) (FunctionDef.invoke c n) := ih (by omega)
    have hbody := follows_block hdeeper d.body
    rw [Task.begin, enter_of_lt_limit (by omega), Task.outcome, FunctionDef.invoke]
    exact Performs.act (.ofChecked span _) (fun locals => performs_inCall (hbody _) (by omega))
      hbound k m s rfl

theorem performs_script (hlimit : c.limit ≤ bound) (ss : List Stmt) :
    Performs c bound depth ((Task.script ss).begin c) (Stmt.runAll c ss) := by
  induction ss with
  | nil => exact Performs.give (a := .nothing) ()
  | cons stmt rest ih =>
    rintro hbound r k m s rfl
    have htop : Performs c bound m.depth ((Task.script (stmt :: rest)).begin c)
        (Eval.change (Machine.anchored stmt.span) >>= fun _ =>
          stmt.execWith c (c.invocation m) .module >>= fun _ => Stmt.runAll c rest) := by
      refine .act (.change ?_) fun _ => ?_
      · exact fun _ => rfl
      · exact .push (follows_stmt (calls_invoke hlimit) stmt .module) fun flow => .go ih
    have hrun : Stmt.runAll c (stmt :: rest) m s = (Eval.change (Machine.anchored stmt.span) >>=
        fun _ => stmt.execWith c (c.invocation m) .module >>= fun _ => Stmt.runAll c rest) m s := by
      rw [Stmt.runAll, bind_apply, Stmt.runTop, ← bind_apply, bind_bind, bind_bind]
      rfl
    rw [hrun]
    exact htop hbound k m s rfl

/-- **The machine does what the evaluator says**, about every task. -/
theorem Task.performs (hlimit : c.limit ≤ bound) (t : Task a) :
    Follows c bound depth (FunctionDef.invoke c (c.limit - depth)) t := by
  have h : Calls c bound depth (FunctionDef.invoke c (c.limit - depth)) := calls_invoke hlimit
  cases t with
  | expr scope e => exact follows_expr h scope e
  | all scope es => exact follows_all h scope es
  | pieces scope text ps => exact follows_pieces h scope ps text
  | entries scope span done es => exact follows_entries h scope span es done
  | keywords scope done es => exact follows_keywords h scope es done
  | call f args span => exact follows_call h f args span
  | invoke d args span => exact h d args span
  | stmt s scope => exact follows_stmt h s scope
  | block ss scope => exact follows_block h ss scope
  | branches bs otherwise scope => exact follows_branches h bs otherwise (follows_block h _) scope
  | items span target body vs scope =>
    exact follows_items span target body (follows_block h body) vs scope
  | script ss => exact performs_script hlimit ss

/-! ## The theorem -/

/-- A task ends, and a computation says how. -/
structure Ends (c : Setting σ) (t : Task a) (y : Eval σ a.type) : Prop where
  /-- Whatever waits, finitely many steps lead to the ending, with no more calls under way inside
  each other at any of them than the limit allows or than there were at the start. -/
  leads {r : Kind} (k : Stack a r) (m : Machine) (s : σ) :
    Leads c (max m.depth c.limit) (.begin t k m s) (.after (y m s) k)
  /-- If nothing waits, there are no further steps. -/
  halts (m : Machine) (s : σ) : (Configuration.after (y m s) .nil).step c = none
  /-- It is a value or an error, with the depth of calls as it was at the start, or a panic. -/
  restored (m : Machine) (s : σ) : Restored m.depth (y m s)
  /-- If it is a panic, the last step tells what it is over. -/
  panics {r : Kind} (k : Stack a r) {m m' : Machine} {s s' : σ} {p : String} :
    y m s = (.panic p, m', s') → ∃ x : Configuration σ r,
      Leads c (max m.depth c.limit) (.begin t k m s) x ∧
      x.step c = some (.panicked p m' s') ∧ x.PanicsOver c p

theorem Task.leads (c : Setting σ) (t : Task a) {r : Kind} (k : Stack a r) (m : Machine) (s : σ) :
    Leads c (max m.depth c.limit) (.begin t k m s)
      (.after (t.outcome c (c.invocation m) m s) k) := by
  have hbound : m.depth ≤ max m.depth c.limit := Nat.le_max_left _ _
  exact .step hbound rfl (t.performs (Nat.le_max_right _ _) hbound k m s rfl).1

theorem Task.ends (c : Setting σ) (t : Task a) :
    Ends c t fun m => t.outcome c (c.invocation m) m where
  leads := t.leads c
  halts m s := Configuration.step_after_nil c _
  restored m s := by
    have hbound : m.depth ≤ max m.depth c.limit := Nat.le_max_left _ _
    exact (t.performs (Nat.le_max_right _ _) hbound .nil m s rfl).2
  panics k m _ s _ _ h := by
    have hleads := t.leads c k m s
    rw [h] at hleads
    exact hleads.exists_panicsOver

/-- Surroundings without a clock, in which no name is known, with a library whose sort gives up on
whatever is not an order. -/
def nowhere : Host Unit :=
  ⟨fun _ s => (none, s), fun _ _ => none, fun _ _ s => s, fun _ s => s, fun s => (none, s),
    fun _ => none⟩

/-- A function that only calls itself fails when the limit is used up; each call that was under way
is in the trace, and none is left. -/
example :
    let again : Expr := .call .none "f" [] []
    let loop : FunctionDef := ⟨"f", [], [.result .none (some again)], .none⟩
    let run := again.eval ⟨"app.tr", 2, nowhere⟩ .module (.fresh [("f", loop)]) ()
    run.1 = .error ⟨.recursion 2, .none, [⟨"f", .none⟩, ⟨"f", .none⟩]⟩ ∧ run.2.1.depth = 0 :=
  ⟨rfl, rfl⟩

/-- Of many items that do not compare the library may make nothing at all. -/
example :
    let items : Expr := .literal .none (.list (List.replicate 21 .null))
    ((Expr.call .none "sorted" [items] []).eval ⟨"app.tr", 2, nowhere⟩ .module (.fresh []) ()).1 =
      .panic Helper.disorderMessage := by
  cbv

end Stepwise

end ReactiveScript

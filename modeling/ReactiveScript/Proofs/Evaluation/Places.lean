import ReactiveScript.Proofs.Evaluation.Termination
import ReactiveScript.Proofs.Parts

/-!
# Where evaluation stands

At any moment of a run, what is evaluated and what waits inside the same call are pieces of one
block: the body of the function that was called last.  A single move keeps to that block, and an
error that it raises is raised at a position there; only entering a function leads into another
block.

* `Block.HasStmt`, `Block.HasExpr`, `Block.HasCall`, `Block.HasPlace` — what stands in a block, the
  bodies of definitions left out.
* `Stepwise.Task.Within`, `Stepwise.Frame.Within` — tasks and frames that are made of a block.
* `Stepwise.Keeps` — moves that keep to a block.
* `Stepwise.Task.keeps_begin`, `Stepwise.Frame.keeps_resume` — single moves do.
-/

set_option autoImplicit false

namespace ReactiveScript

/-! ## Blocks -/

/-- The expressions that a statement evaluates itself. -/
def Stmt.operands : Stmt → List Expr
  | .assign _ _ e => [e]
  | .expr _ e => [e]
  | .result _ (some e) => [e]
  | .choose _ branches _ => branches.map Prod.fst
  | .loop _ _ series _ => [series]
  | _ => []

namespace Block

/-- A statement stands in a block, possibly in choices and loops, but not in a definition. -/
inductive HasStmt (ss : List Stmt) : Stmt → Prop
  /-- It is one of the block. -/
  | here {s : Stmt} : s ∈ ss → HasStmt ss s
  /-- It is in a branch of a choice. -/
  | branch {span : Span} {bs : List (Expr × List Stmt)} {otherwise : List Stmt}
      {b : Expr × List Stmt} {s : Stmt} :
      HasStmt ss (.choose span bs otherwise) → b ∈ bs → s ∈ b.2 → HasStmt ss s
  /-- It is in the last block of a choice. -/
  | otherwise {span : Span} {bs : List (Expr × List Stmt)} {otherwise : List Stmt} {s : Stmt} :
      HasStmt ss (.choose span bs otherwise) → s ∈ otherwise → HasStmt ss s
  /-- It is in a loop. -/
  | loop {span : Span} {target : String} {series : Expr} {body : List Stmt} {s : Stmt} :
      HasStmt ss (.loop span target series body) → s ∈ body → HasStmt ss s

/-- All of some statements stand in a block. -/
def HasStmts (ss body : List Stmt) : Prop := ∀ s ∈ body, HasStmt ss s

/-- An expression stands in a block: it is a part of one that a statement evaluates. -/
def HasExpr (ss : List Stmt) (e : Expr) : Prop :=
  ∃ s, HasStmt ss s ∧ ∃ x ∈ s.operands, e ∈ x.parts

/-- All of some expressions stand in a block. -/
def HasExprs (ss : List Stmt) (es : List Expr) : Prop := ∀ e ∈ es, HasExpr ss e

/-- A call of a function by some name stands at a position of a block. -/
def HasCall (ss : List Stmt) (function : String) (span : Span) : Prop :=
  ∃ args keywords, HasExpr ss (.call span function args keywords)

/-- A statement or an expression stands at a position of a block. -/
def HasPlace (ss : List Stmt) (span : Span) : Prop :=
  (∃ s, HasStmt ss s ∧ s.span = span) ∨ ∃ e, HasExpr ss e ∧ e.span = span

variable {ss : List Stmt}

theorem HasStmt.hasPlace {s : Stmt} (h : HasStmt ss s) : HasPlace ss s.span := Or.inl ⟨s, h, rfl⟩

theorem HasExpr.hasPlace {e : Expr} (h : HasExpr ss e) : HasPlace ss e.span := Or.inr ⟨e, h, rfl⟩

theorem HasCall.hasPlace {f : String} {span : Span} (h : HasCall ss f span) : HasPlace ss span := by
  obtain ⟨args, keywords, hcall⟩ := h
  exact hcall.hasPlace

theorem HasStmt.trans {body : List Stmt} {s : Stmt} (hbody : HasStmts ss body)
    (h : HasStmt body s) : HasStmt ss s := by
  induction h with
  | here hs => exact hbody _ hs
  | branch _ hb hs ih => exact .branch ih hb hs
  | otherwise _ hs ih => exact .otherwise ih hs
  | loop _ hs ih => exact .loop ih hs

theorem HasStmt.hasExprs {s : Stmt} {e : Expr} (h : HasStmt ss s) (he : e ∈ s.operands) :
    HasExprs ss e.parts := fun _ hx => ⟨s, h, e, he, hx⟩

theorem hasExprs_cons {e : Expr} {es : List Expr} :
    HasExprs ss (e :: es) ↔ HasExpr ss e ∧ HasExprs ss es := List.forall_mem_cons

theorem hasExprs_append {es es' : List Expr} :
    HasExprs ss (es ++ es') ↔ HasExprs ss es ∧ HasExprs ss es' := List.forall_mem_append

theorem HasExprs.hasPlace {e : Expr} (h : HasExprs ss e.parts) : HasPlace ss e.span :=
  (h e e.mem_parts_self).hasPlace

end Block

open Block Eval

variable {σ α β : Type}

namespace Stepwise

/-! ## Tasks and frames of a block -/

/-- A task is made of a block; a function that is about to be entered is known. -/
def Task.Within (ss : List Stmt) (known : FunctionDef → Prop) : {a : Kind} → Task a → Prop
  | _, .expr _ e => HasExprs ss e.parts
  | _, .all _ es => HasExprs ss (Expr.allParts es)
  | _, .pieces _ _ ps => HasExprs ss (Expr.pieceParts ps)
  | _, .entries _ span _ es => HasPlace ss span ∧ HasExprs ss (Expr.entryParts es)
  | _, .keywords _ _ es => HasExprs ss (Expr.keywordParts es)
  | _, .call f _ span => HasCall ss f span
  | _, .invoke d _ span => HasCall ss d.name span ∧ known d
  | _, .stmt s _ => HasStmt ss s
  | _, .block body _ => HasStmts ss body
  | _, .branches bs otherwise _ =>
    (∀ b ∈ bs, HasExprs ss b.1.parts ∧ HasStmts ss b.2) ∧ HasStmts ss otherwise
  | _, .items span _ body _ _ => HasPlace ss span ∧ HasStmts ss body
  | _, .script _ => False

/-- A frame waits inside the call that a block is run for. -/
def Frame.Within (ss : List Stmt) : {a b : Kind} → Frame a b → Prop
  | _, _, .format => True
  | _, _, .list => True
  | _, _, .dict => True
  | _, _, .unary span _ => HasPlace ss span
  | _, _, .left _ span _ r => HasPlace ss span ∧ HasExprs ss r.parts
  | _, _, .right span _ _ => HasPlace ss span
  | _, _, .logical _ _ r => HasExprs ss r.parts
  | _, _, .positional _ span f kws => HasCall ss f span ∧ HasExprs ss (Expr.keywordParts kws)
  | _, _, .keywords span f _ => HasCall ss f span
  | _, _, .collection _ span i => HasPlace ss span ∧ HasExprs ss i.parts
  | _, _, .index span _ => HasPlace ss span
  | _, _, .attribute span _ => HasPlace ss span
  | _, _, .hole _ _ _ ps => HasExprs ss (Expr.pieceParts ps)
  | _, _, .head _ es => HasExprs ss (Expr.allParts es)
  | _, _, .tail _ => True
  | _, _, .key _ span _ e es =>
    HasPlace ss span ∧ HasExprs ss e.parts ∧ HasExprs ss (Expr.entryParts es)
  | _, _, .entry _ span _ _ es => HasPlace ss span ∧ HasExprs ss (Expr.entryParts es)
  | _, _, .keyword _ _ _ es => HasExprs ss (Expr.keywordParts es)
  | _, _, .assign _ _ => True
  | _, _, .drop _ => True
  | _, _, .result => True
  | _, _, .test _ block rest otherwise =>
    HasStmts ss block ∧ (∀ b ∈ rest, HasExprs ss b.1.parts ∧ HasStmts ss b.2) ∧
      HasStmts ss otherwise
  | _, _, .series _ span _ place block => HasPlace ss span ∧ HasPlace ss place ∧ HasStmts ss block
  | _, _, .item span _ block _ => HasPlace ss span ∧ HasStmts ss block
  | _, _, .next rest => HasStmts ss rest
  | _, _, .body .. => False
  | _, _, .top _ => False

/-- What follows a move is made of a block. -/
def Move.Within (ss : List Stmt) (known : FunctionDef → Prop) {b : Kind} : Move b → Prop
  | .give _ => True
  | .go t => t.Within ss known
  | .push frame t => frame.Within ss ∧ t.Within ss known

/-! ## Moves that keep to a block -/

/-- The functions of a machine are listed under their names, and are known. -/
def Knows (known : FunctionDef → Prop) (m : Machine) : Prop :=
  ∀ f d, Table.get? f m.functions = some d → d.name = f ∧ known d

/-- A computation defines known functions only, leaves the depth of calls alone, has a value of some
sort, and raises errors at positions of a block only. -/
def Keeps (ss : List Stmt) (known : FunctionDef → Prop) (P : α → Prop) (x : Eval σ α) : Prop :=
  ∀ m s, Knows known m → Knows known (x m s).2.1 ∧ (x m s).2.1.depth = m.depth ∧
    (∀ v, (x m s).1 = .value v → P v) ∧
    ∀ e, (x m s).1 = .error e → e.trace = [] ∧ HasPlace ss e.span

variable {ss : List Stmt} {known : FunctionDef → Prop} {c : Setting σ} {a b : Kind}

namespace Keeps

variable {P : α → Prop} {Q : β → Prop}

theorem value {v : α} (hv : P v) : Keeps ss known P (Eval.value v : Eval σ α) := fun _ _ hm =>
  ⟨hm, rfl, fun w hw => by cases hw; exact hv, nofun⟩

theorem machine : Keeps ss known (Knows known) (Eval.machine : Eval σ Machine) := fun _ _ hm =>
  ⟨hm, rfl, fun w hw => by cases hw; exact hm, nofun⟩

theorem bind {x : Eval σ α} {f : α → Eval σ β} (hx : Keeps ss known P x)
    (hf : ∀ v, P v → Keeps ss known Q (f v)) : Keeps ss known Q (x >>= f) := by
  intro m s hm
  obtain ⟨hknows, hdepth, hvalue, herror⟩ := hx m s hm
  rw [bind_apply]
  rcases hxm : x m s with ⟨v | e | p, m', s'⟩ <;> rw [hxm] at hknows hdepth hvalue herror
  · obtain ⟨hknows', hdepth', hrest⟩ := hf v (hvalue v rfl) m' s' hknows
    exact ⟨hknows', hdepth'.trans hdepth, hrest⟩
  · refine ⟨hknows, hdepth, nofun, fun e' he' => ?_⟩
    cases he'
    exact herror e rfl
  · exact ⟨hknows, hdepth, nofun, nofun⟩

theorem of_local {x : Eval σ α} (hx : Local (fun _ => True) (HasPlace ss) x) :
    Keeps ss known (fun _ => True) x := fun m s hm =>
  ⟨fun f d hd => hm f d (hx.functions_eq m s ▸ hd), hx.level m s, fun _ _ => trivial,
    hx.spots_of_error m s⟩

theorem ofChecked {span : Span} (hspan : HasPlace ss span) (x : Checked α) :
    Keeps ss known (fun _ => True) (Eval.ofChecked span x : Eval σ α) :=
  of_local (.ofChecked hspan x)

theorem checkDeadline {span : Span} (hspan : HasPlace ss span) :
    Keeps ss known (fun _ => True) (c.checkDeadline span) :=
  of_local (c.local_checkDeadline hspan)

theorem assign (scope : Scope) (name : String) (v : Value) :
    Keeps ss known (fun _ => True) (c.assign scope name v) :=
  of_local (c.local_assign scope name v)

theorem giving {y : Eval σ a.type} (hy : Keeps ss known (fun _ => True) y) :
    Keeps ss known (Move.Within ss known) (giving y) := hy.bind fun _ _ => value trivial

theorem define {d : FunctionDef} (hd : known d) :
    Keeps ss known (fun _ => True) (Eval.change fun m =>
      { m with functions := Table.put d.name d m.functions } : Eval σ Unit) := by
  intro m s hm
  refine ⟨fun f d' hd' => ?_, rfl, fun _ _ => trivial, nofun⟩
  have hget : Table.get? f (Table.put d.name d m.functions) = some d' := hd'
  rw [Table.get?_put] at hget
  split at hget
  · rename_i hname
    cases hget
    exact ⟨hname, hd⟩
  · exact hm f d' hget

end Keeps

/-! ## Single moves -/

/-- The functions that a block defines are known. -/
def Defines (ss : List Stmt) (known : FunctionDef → Prop) : Prop :=
  ∀ s, HasStmt ss s → ∀ d, s.definition? = some d → known d

theorem keeps_beginExpr {scope : Scope} {e : Expr} (he : HasExprs ss e.parts) :
    Keeps ss known (Move.Within ss known) (beginExpr c scope e) := by
  have hself := he e e.mem_parts_self
  cases e with
  | literal => exact .value trivial
  | name span n =>
    have hspan : HasPlace ss span := hself.hasPlace
    exact .giving (.of_local (c.local_lookup hspan scope n))
  | format | list => exact .value ⟨trivial, (hasExprs_cons.1 he).2⟩
  | dict => exact .value ⟨trivial, hself.hasPlace, (hasExprs_cons.1 he).2⟩
  | unary | «attribute» => exact .value ⟨hself.hasPlace, (hasExprs_cons.1 he).2⟩
  | binary | index =>
    obtain ⟨hl, hr⟩ := hasExprs_append.1 (hasExprs_cons.1 he).2
    exact .value ⟨⟨hself.hasPlace, hr⟩, hl⟩
  | logical =>
    obtain ⟨hl, hr⟩ := hasExprs_append.1 (hasExprs_cons.1 he).2
    exact .value ⟨hr, hl⟩
  | call =>
    obtain ⟨hargs, hkws⟩ := hasExprs_append.1 (hasExprs_cons.1 he).2
    exact .value ⟨⟨⟨_, _, hself⟩, hkws⟩, hargs⟩

theorem keeps_beginStmt (hdefines : Defines ss known) {scope : Scope} {s : Stmt}
    (hs : HasStmt ss s) : Keeps ss known (Move.Within ss known) (beginStmt scope s : Eval σ _) := by
  cases s with
  | assign span target e => exact .value ⟨trivial, hs.hasExprs (List.mem_singleton_self e)⟩
  | expr span e => exact .value ⟨trivial, hs.hasExprs (List.mem_singleton_self e)⟩
  | define => exact (Keeps.define (hdefines _ hs _ rfl)).bind fun _ _ => .value trivial
  | result span e =>
    cases e with
    | none => exact .value trivial
    | some e => exact .value ⟨trivial, hs.hasExprs (List.mem_singleton_self e)⟩
  | choose span bs otherwise =>
    refine .value ⟨fun b hb => ⟨hs.hasExprs (List.mem_map_of_mem hb), fun s hs' => ?_⟩,
      fun s hs' => .otherwise hs hs'⟩
    exact .branch hs hb hs'
  | loop span target series body =>
    have hseries := hs.hasExprs (List.mem_singleton_self series)
    exact .value ⟨⟨hs.hasPlace, hseries.hasPlace, fun s hs' => .loop hs hs'⟩, hseries⟩
  | pass => exact .value trivial

/-- A call of a function of the script. -/
structure Activation where
  /-- What is called. -/
  definition : FunctionDef
  /-- Where it is called. -/
  span : Span

/-- The call that a task is about to enter. -/
def Task.entered? : {a : Kind} → Task a → Option Activation
  | _, .invoke d _ span => some ⟨d, span⟩
  | _, _ => none

/-- **A task that enters no function keeps to the block that it is made of.** -/
theorem Task.keeps_begin (hdefines : Defines ss known) {t : Task a} (ht : t.Within ss known)
    (hentered : t.entered? = none) : Keeps ss known (Move.Within ss known) (t.begin c) := by
  cases t with
  | expr scope e => exact keeps_beginExpr ht
  | all scope es =>
    cases es with
    | nil => exact .value trivial
    | cons e es =>
      obtain ⟨he, hes⟩ := hasExprs_append.1 ht
      exact .value ⟨hes, he⟩
  | pieces scope text ps =>
    rcases ps with _ | ⟨_ | ⟨e, places⟩, ps⟩
    · exact .value trivial
    · exact .value ht
    · obtain ⟨he, hps⟩ := hasExprs_append.1 ht
      exact .value ⟨hps, he⟩
  | entries scope span done es =>
    obtain ⟨hspan, hes⟩ := ht
    cases es with
    | nil => exact .value trivial
    | cons e es =>
      obtain ⟨he, hes⟩ := hasExprs_append.1 hes
      obtain ⟨hk, hv⟩ := hasExprs_append.1 he
      exact .value ⟨⟨hspan, hv, hes⟩, hk⟩
  | keywords scope done es =>
    cases es with
    | nil => exact .value trivial
    | cons e es =>
      obtain ⟨he, hes⟩ := hasExprs_append.1 ht
      exact .value ⟨hes, he⟩
  | call f args span =>
    have hcall : HasCall ss f span := ht
    refine (Keeps.checkDeadline hcall.hasPlace).bind fun _ _ => Keeps.machine.bind fun m hm => ?_
    cases hd : Table.get? f m.functions with
    | some d =>
      obtain ⟨rfl, hknown⟩ := hm f d hd
      exact .value ⟨hcall, hknown⟩
    | none =>
      exact .giving (.of_local (c.local_callBuiltin hcall.hasPlace f args fun _ _ => trivial))
  | invoke => cases hentered
  | stmt s scope => exact keeps_beginStmt hdefines ht
  | block body scope =>
    cases body with
    | nil => exact .value trivial
    | cons s rest =>
      obtain ⟨hs, hrest⟩ := List.forall_mem_cons.1 ht
      exact .value ⟨hrest, hs⟩
  | branches bs otherwise scope =>
    obtain ⟨hbs, hother⟩ := ht
    cases bs with
    | nil => exact .value hother
    | cons b bs =>
      obtain ⟨⟨htest, hbody⟩, hbs⟩ := List.forall_mem_cons.1 hbs
      exact .value ⟨⟨hbody, hbs, hother⟩, htest⟩
  | items span target body vs scope =>
    obtain ⟨hspan, hbody⟩ := ht
    cases vs with
    | nil => exact .value trivial
    | cons v vs =>
      exact (Keeps.checkDeadline hspan).bind fun _ _ => (Keeps.assign scope target v).bind
        fun _ _ => .value ⟨⟨hspan, hbody⟩, hbody⟩
  | script => cases ht

/-- **A frame that waits inside the call keeps to its block.** -/
theorem Frame.keeps_resume {frame : Frame a b} (hframe : frame.Within ss) (y : a.type) :
    Keeps ss known (Move.Within ss known) (frame.resume c y) := by
  cases frame with
  | format | list | dict | drop | result => exact .value trivial
  | unary | right | index | «attribute» => exact .giving (.ofChecked hframe _)
  | left | collection => exact .value hframe
  | logical scope op r =>
    cases op <;> rw [Frame.resume] <;> cases Value.isTruthy y
    · exact .value trivial
    · exact .value hframe
    · exact .value hframe
    · exact .value trivial
  | positional => exact .value hframe
  | keywords => exact .value hframe
  | hole scope text places ps =>
    exact (Keeps.of_local (local_formatted y places fun _ _ _ _ _ => trivial)).bind fun _ _ => .value hframe
  | head => exact .value ⟨trivial, hframe⟩
  | tail => exact .value trivial
  | key scope span done e es =>
    obtain ⟨hspan, he, hes⟩ := hframe
    exact (Keeps.ofChecked hspan _).bind fun _ _ => .value ⟨⟨hspan, hes⟩, he⟩
  | entry => exact .value hframe
  | keyword => exact .value hframe
  | assign scope target => exact (Keeps.assign scope target y).bind fun _ _ => .value trivial
  | test scope block rest otherwise =>
    obtain ⟨hblock, hrest⟩ := hframe
    rw [Frame.resume]
    split
    · exact .value hblock
    · exact .value hrest
  | series scope span target place block =>
    obtain ⟨hspan, hplace, hblock⟩ := hframe
    exact (Keeps.ofChecked hplace _).bind fun _ _ => .value ⟨hspan, hblock⟩
  | item span target block vs =>
    cases y with
    | next => exact .value hframe
    | result => exact .value trivial
  | next rest =>
    cases y with
    | next => exact .value hframe
    | result => exact .value trivial
  | body | top => cases hframe

end Stepwise

end ReactiveScript

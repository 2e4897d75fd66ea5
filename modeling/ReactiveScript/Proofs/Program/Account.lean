import Mathlib.Data.List.Induction
import ReactiveScript.Interpretation
import ReactiveScript.Proofs.Evaluation.Invariant
import ReactiveScript.Proofs.Program.Split

/-!
# What each statement contributes

Interpreting a script executes its statements one after another on one machine.  The account of such
a run says for each statement what value it had and which units it emitted.  If the statements can
be nodes, the account is all there is to the run.

* `Stmt.account` — the contributions of statements that are executed one after another.
* `Stmt.runAll_account` — machine and log after a run, in terms of the account.
* `Script.contributions` — the units of the account, under the ids of the nodes.
-/

set_option autoImplicit false

namespace ReactiveScript

/-- The setting in which a script is interpreted. -/
def Script.setting (file : String) (inputs : InputTable) (limit : Nat) : Setting Log :=
  ⟨file, limit, Log.host (fun _ => none) inputs⟩

/-- What a statement contributes to a run. -/
structure Entry where
  /-- The statement. -/
  slot : Slot
  /-- The value of its expression. -/
  value : Value
  /-- The units that it emits. -/
  units : List OutputUnit

/-- The variable that a statement assigns, with its value. -/
def Entry.binding? (e : Entry) : Option (String × Value) := e.slot.binds?.map fun n => (n, e.value)

namespace Stmt

/-- How the expression of a statement evaluates when the statement is executed. -/
def evaluated (c : Setting Log) (e : Expr) (span : Span) (m : Machine) (l : Log) :
    Ending EvalError Value × Machine × Log :=
  e.evalWith c (c.invocation m) .module (m.anchored span) l

/-- The value that a slot gets when its statement is executed. -/
def valueOf (c : Setting Log) (slot : Slot) (span : Span) (m : Machine) (l : Log) : Value :=
  match slot.expression?.map fun e => (evaluated c e span m l).1 with
  | some (.value v) => v
  | _ => .null

/-- What a statement contributes when it is executed. -/
def contribution? (c : Setting Log) (s : Stmt) (m : Machine) (l : Log) : Option Entry :=
  s.slot?.map fun slot => ⟨slot, valueOf c slot s.span m l,
    (s.runTop c m l).2.2.emitted.toList.drop l.emitted.size⟩

/-- What statements contribute when they are executed one after another. -/
def account (c : Setting Log) : List Stmt → Machine → Log → List Entry
  | [], _, _ => []
  | s :: rest, m, l =>
    let after := s.runTop c m l
    (s.contribution? c m l).toList ++ account c rest after.2.1 after.2.2

theorem map_slot_account (c : Setting Log) (ss : List Stmt) (m : Machine) (l : Log) :
    (account c ss m l).map Entry.slot = ss.filterMap slot? := by
  induction ss generalizing m l with
  | nil => rfl
  | cons s ss ih =>
    rw [account, List.map_append, ih, List.filterMap_cons, contribution?]
    cases s.slot? <;> rfl

/-! ## Runs that come to their end -/

variable {c : Setting Log} {m m' : Machine} {l l' : Log}

theorem runAll_cons {s : Stmt} {ss : List Stmt}
    (h : runAll c (s :: ss) m l = (.value (), m', l')) :
    ∃ m₁ l₁, s.runTop c m l = (.value (), m₁, l₁) ∧ runAll c ss m₁ l₁ = (.value (), m', l') := by
  have hrun : Eval.andThen (s.runTop c) (fun _ => runAll c ss) m l = (.value (), m', l') := h
  rw [Eval.andThen] at hrun
  rcases htop : s.runTop c m l with ⟨_ | _ | _, m₁, l₁⟩ <;> rw [htop] at hrun
  · exact ⟨m₁, l₁, rfl, hrun⟩
  · cases hrun
  · cases hrun

theorem runAll_append {ss ss' : List Stmt}
    (h : runAll c (ss ++ ss') m l = (.value (), m', l')) :
    ∃ m₁ l₁, runAll c ss m l = (.value (), m₁, l₁) ∧ runAll c ss' m₁ l₁ = (.value (), m', l') ∧
      account c (ss ++ ss') m l = account c ss m l ++ account c ss' m₁ l₁ := by
  induction ss generalizing m l with
  | nil => exact ⟨m, l, rfl, h, rfl⟩
  | cons s ss ih =>
    obtain ⟨m₁, l₁, htop, hrest⟩ := runAll_cons h
    obtain ⟨m₂, l₂, hss, hss', haccount⟩ := ih hrest
    refine ⟨m₂, l₂, ?_, hss', ?_⟩
    · show Eval.andThen (s.runTop c) (fun _ => runAll c ss) m l = _
      rw [Eval.andThen, htop]
      exact hss
    · rw [List.cons_append, account, account, htop, haccount, List.append_assoc]

/-- What executing a statement that can be a node, or needs none, comes to. -/
theorem runTop_cases {s : Stmt} (hflat : s.isFlat = true)
    (h : s.runTop c m l = (.value (), m', l')) :
    (s.slot? = none ∧ s.definition? = none ∧ m' = m.anchored s.span ∧ l' = l) ∨
    (∃ node d, s.slot? = some (.definition node s.span d) ∧ s.definition? = some d ∧ l' = l ∧
      m' = { m.anchored s.span with functions := Table.put d.name d m.functions }) ∨
    ∃ node kind binds e v m₁, s.slot? = some (.statement node kind s.span binds e) ∧
      s.definition? = none ∧ evaluated c e s.span m l = (.value v, m₁, l') ∧
      m' = { m₁ with globals := Table.merge m₁.globals (binds.map fun n => (n, v)).toList } := by
  cases s with
  | assign span target e =>
    right
    right
    have hrun : Eval.andThen (Eval.andThen (e.evalWith c (c.invocation m) .module) fun v =>
        Eval.andThen (c.assign .module target v) fun scope => Eval.value (Flow.next scope))
        (fun _ => Eval.value ()) (m.anchored span) l = (.value (), m', l') := h
    rw [Eval.andThen, Eval.andThen] at hrun
    rcases he : e.evalWith c (c.invocation m) .module (m.anchored span) l with
      ⟨v | _ | _, m₁, l₁⟩ <;> rw [he] at hrun
    · cases hrun
      exact ⟨_, _, some target, e, v, m₁, rfl, rfl, he, rfl⟩
    · cases hrun
    · cases hrun
  | expr span e =>
    right
    right
    have hrun : Eval.andThen (Eval.andThen (e.evalWith c (c.invocation m) .module) fun _ =>
        Eval.value (Flow.next .module)) (fun _ => Eval.value ()) (m.anchored span) l
          = (.value (), m', l') := h
    rw [Eval.andThen, Eval.andThen] at hrun
    rcases he : e.evalWith c (c.invocation m) .module (m.anchored span) l with
      ⟨v | _ | _, m₁, l₁⟩ <;> rw [he] at hrun
    · cases hrun
      exact ⟨_, _, none, e, v, _, rfl, rfl, he, rfl⟩
    · cases hrun
    · cases hrun
  | define span name params defSpan body =>
    cases h
    exact Or.inr (Or.inl ⟨_, _, rfl, rfl, rfl, rfl⟩)
  | pass span =>
    cases h
    exact Or.inl ⟨rfl, rfl, rfl, rfl⟩
  | choose | loop | result => cases hflat

/-- The log grows, and there is no deadline. -/
def Extends (units : List OutputUnit) (l : Log) : Prop :=
  units <+: l.emitted.toList ∧ l.clock.limit = none

theorem keeps_extends (file : String) (inputs : InputTable) (limit : Nat)
    (units : List OutputUnit) : (Script.setting file inputs limit).Keeps (Extends units) where
  global _ _ h := h
  expired _ h := h
  emit _ u l h := by
    refine ⟨h.1.trans ?_, h.2⟩
    show l.emitted.toList <+: (l.emitted.push u).toList
    rw [Array.toList_push]
    exact List.prefix_append _ _
  print _ _ h := h

theorem valueOf_eq {node : NodeId} {kind : String} {span : Span} {binds : Option String} {e : Expr}
    {v : Value} {m₁ : Machine} (h : evaluated c e span m l = (.value v, m₁, l')) :
    valueOf c (.statement node kind span binds e) span m l = v := by
  show (match some (evaluated c e span m l).1 with | some (.value v) => v | _ => Value.null) = v
  rw [h]

/-- What one statement leaves, in terms of what it contributes. -/
structure Contributes (s : Stmt) (entry : Option Entry) (m m' : Machine) (l l' : Log) : Prop where
  /-- A function is defined. -/
  functions_eq : m'.functions
    = Table.merge m.functions (s.definition?.map fun d => (d.name, d)).toList
  /-- A variable is assigned. -/
  globals_eq : m'.globals = Table.merge m.globals (entry.bind Entry.binding?).toList
  /-- No call is under way that was not before. -/
  depth_eq : m'.depth = m.depth
  /-- Units are emitted. -/
  emitted_eq : l'.emitted.toList = l.emitted.toList ++ ((entry.map Entry.units).getD [])
  /-- There is no deadline. -/
  limit_eq : l'.clock.limit = none

theorem contributes_of_runTop {file : String} {inputs : InputTable} {limit : Nat} {s : Stmt}
    (hflat : s.isFlat = true) (hm : m.DefinesNothing) (hl : l.clock.limit = none)
    (h : s.runTop (Script.setting file inputs limit) m l = (.value (), m', l')) :
    Contributes s (s.contribution? (Script.setting file inputs limit) m l) m m' l l' := by
  have hsame : l.emitted.toList = l.emitted.toList ++ l.emitted.toList.drop l.emitted.size := by
    rw [← Array.length_toList, List.drop_length, List.append_nil]
  obtain ⟨hslot, hdefines, rfl, rfl⟩ | ⟨node, d, hslot, hdefines, rfl, rfl⟩ |
    ⟨node, kind, binds, e, v, m₁, hslot, hdefines, he, rfl⟩ := runTop_cases hflat h
  · rw [contribution?, hslot]
    exact ⟨by rw [hdefines]; rfl, rfl, rfl, (List.append_nil _).symm, hl⟩
  · rw [contribution?, hslot, h]
    exact ⟨by rw [hdefines]; rfl, rfl, rfl, hsame, hl⟩
  · obtain ⟨hfunctions, hglobals, hdepth, hprefix, hlimit⟩ := Expr.evalWith_keeps
      (keeps_extends file inputs limit l.emitted.toList) (m := m.anchored s.span) hm e .module
      (limit - m.depth) (s := l) ⟨List.prefix_refl _, hl⟩
    have he' : e.evalWith (Script.setting file inputs limit)
        (FunctionDef.invoke (Script.setting file inputs limit) (limit - m.depth)) .module
        (m.anchored s.span) l = (.value v, m₁, l') := he
    rw [he'] at hfunctions hglobals hdepth hprefix hlimit
    rw [contribution?, hslot, h, Option.map_some, valueOf_eq he]
    refine ⟨?_, ?_, hdepth v rfl, ?_, hlimit⟩
    · rw [hdefines]
      exact hfunctions
    · show Table.merge m₁.globals _ = _
      rw [hglobals]
      cases binds <;> rfl
    · obtain ⟨more, hmore⟩ := hprefix
      show l'.emitted.toList = _ ++ l'.emitted.toList.drop l.emitted.size
      rw [← hmore, ← Array.length_toList, List.drop_left]

/-- **What a run leaves, in terms of what its statements contribute.** -/
theorem runAll_account {file : String} {inputs : InputTable} {limit : Nat} {ss : List Stmt}
    (hflat : ∀ s ∈ ss, s.isFlat = true) (hm : m.DefinesNothing)
    (hss : ∀ d ∈ ss.filterMap definition?, blockDefinesNothing d.body = true) (hl : l.clock.limit = none)
    (h : runAll (Script.setting file inputs limit) ss m l = (.value (), m', l')) :
    m'.DefinesNothing ∧
      m'.functions = Table.merge m.functions ((ss.filterMap definition?).map fun d => (d.name, d)) ∧
      m'.globals = Table.merge m.globals
        ((account (Script.setting file inputs limit) ss m l).filterMap Entry.binding?) ∧
      m'.depth = m.depth ∧
      l'.emitted.toList = l.emitted.toList ++
        (account (Script.setting file inputs limit) ss m l).flatMap Entry.units ∧
      l'.clock.limit = none := by
  induction ss generalizing m l with
  | nil =>
    cases h
    exact ⟨hm, rfl, rfl, rfl, (List.append_nil _).symm, hl⟩
  | cons s ss ih =>
    obtain ⟨hs, hflat⟩ := List.forall_mem_cons.1 hflat
    obtain ⟨m₁, l₁, htop, hrest⟩ := runAll_cons h
    have hstep := contributes_of_runTop hs hm hl htop
    have hdefinition : ∀ d, s.definition? = some d → blockDefinesNothing d.body = true :=
      fun d hd => hss d (List.mem_filterMap.2 ⟨s, List.mem_cons_self, hd⟩)
    have hm₁ : m₁.DefinesNothing := by
      intro f d hd
      rw [hstep.functions_eq, Table.get?_merge] at hd
      rcases Option.or_eq_some_iff.1 hd with hd | ⟨-, hd⟩
      · have hmem := List.mem_reverse.1 (Table.mem_of_get? hd)
        obtain ⟨d', hd', heq⟩ := Option.map_eq_some_iff.1 (Option.mem_toList.1 hmem)
        cases heq
        exact hdefinition _ hd'
      · exact hm f d hd
    obtain ⟨hm', hfunctions, hglobals, hdepth, hemitted, hlimit⟩ := ih hflat hm₁
      (fun d hd => hss d (by
        obtain ⟨s', hs', hd⟩ := List.mem_filterMap.1 hd
        exact List.mem_filterMap.2 ⟨s', List.mem_cons_of_mem _ hs', hd⟩)) hstep.limit_eq hrest
    have haccount : account (Script.setting file inputs limit) (s :: ss) m l
        = (s.contribution? (Script.setting file inputs limit) m l).toList
          ++ account (Script.setting file inputs limit) ss m₁ l₁ := by
      rw [account, htop]
    refine ⟨hm', ?_, ?_, hdepth.trans hstep.depth_eq, ?_, hlimit⟩
    · rw [hfunctions, hstep.functions_eq, ← Table.merge_append, List.filterMap_cons]
      cases s.definition? <;> rfl
    · rw [hglobals, hstep.globals_eq, ← Table.merge_append, haccount, List.filterMap_append]
      congr 2
      cases s.contribution? (Script.setting file inputs limit) m l with
      | none => rfl
      | some e =>
        rw [Option.toList_some, List.filterMap_cons]
        cases he : e.binding? <;> simp [he]
    · rw [hemitted, hstep.emitted_eq, haccount, List.flatMap_append, List.append_assoc]
      cases s.contribution? (Script.setting file inputs limit) m l <;> simp

end Stmt

/-! ## Looking into an account -/

/-- What a variable has been assigned last is the value of the statement that it stands for. -/
theorem Entry.exists_of_get? {entries : List Entry} {n : String} {v : Value}
    (h : Table.get? n (Table.ofList (entries.filterMap Entry.binding?)) = some v) :
    ∃ e ∈ entries, e.value = v ∧
      ∃ i, (Bindings.binders n 0 (entries.map Entry.slot)).getLast? = some (i, e.slot.id) := by
  rw [Table.get?_ofList] at h
  induction entries using List.reverseRecOn with
  | nil => cases h
  | append_singleton entries e ih =>
    rw [List.filterMap_append, List.reverse_append, Table.get?_append] at h
    rw [List.map_append, Bindings.binders_append]
    rcases Option.or_eq_some_iff.1 h with h | ⟨hnone, h⟩
    · have hmem := List.mem_reverse.1 (Table.mem_of_get? h)
      obtain ⟨e', he', hbinding⟩ := List.mem_filterMap.1 hmem
      obtain rfl := List.mem_singleton.1 he'
      obtain ⟨m, hbinds, heq⟩ := Option.map_eq_some_iff.1 hbinding
      cases heq
      refine ⟨e', by simp, rfl, 0 + (entries.map Entry.slot).length, ?_⟩
      rw [List.map_singleton, Bindings.binders, if_pos hbinds, Bindings.binders, List.append_nil,
        List.getLast?_append, List.getLast?_singleton, Option.some_or]
    · obtain ⟨e', he', hvalue, i, hlast⟩ := ih h
      refine ⟨e', List.mem_append_left _ he', hvalue, i, ?_⟩
      have hbinds : e.slot.binds? ≠ some n := by
        intro hbinds
        have hbinding : e.binding? = some (n, e.value) := by rw [Entry.binding?, hbinds]; rfl
        rw [List.filterMap_cons_some hbinding, List.filterMap_nil, List.reverse_singleton,
          Table.get?, if_pos rfl] at hnone
        cases hnone
      rw [List.map_singleton, Bindings.binders, if_neg hbinds, Bindings.binders, List.append_nil,
        List.append_nil]
      exact hlast

namespace Script

/-- The units that the statements of a script emit when it is interpreted, under the ids of their
nodes, in the order of the source. -/
def contributions (script : Script) (file : String) (inputs : InputTable) (limit : Nat) :
    Table NodeId (List OutputUnit) :=
  (Stmt.account (setting file inputs limit) script.body (.fresh []) (.start none)).map
    fun e => (e.slot.id, e.units)

/-- An interpretation that succeeds is a run that comes to its end. -/
theorem exists_runAll_of_interpret {script : Script} {file : String} {inputs : InputTable}
    {limit : Nat} {units : List OutputUnit} (h : script.interpret file inputs limit = .ok units) :
    ∃ m l, Stmt.runAll (setting file inputs limit) script.body (.fresh []) (.start none)
      = (.value (), m, l) ∧ l.emitted.toList = units := by
  rw [interpret, interpretLogged] at h
  dsimp only at h
  change ∃ m l, script.run (setting file inputs limit) (.fresh []) (.start none)
    = (.value (), m, l) ∧ l.emitted.toList = units
  generalize hrun : script.run (setting file inputs limit) (.fresh []) (.start none) = r
  have hrun : script.run ⟨file, limit, Log.host (fun _ => none) inputs⟩ (.fresh []) (.start none)
    = r := hrun
  rw [hrun] at h
  obtain ⟨_ | _ | _, m, l⟩ := r
  · exact ⟨m, l, rfl, Except.ok.inj h⟩
  · cases h
  · cases h

end Script

end ReactiveScript

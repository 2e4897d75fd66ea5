import ReactiveScript.Proofs.Identity
import ReactiveScript.Proofs.Program.Account
import ReactiveScript.Proofs.Program.Locality

/-!
# Nodes do what interpretation does

A statement is executed on a machine that knows the functions defined and the variables assigned
before it, and its node is run with parameters, all functions of the script, and the values of other
nodes.  If interpretation comes to a value, then the node comes to the same value and emits the same
units, as soon as the nodes that it depends on have come to the values that their statements had.

Besides steadiness this needs that no function hides a built-in one from a statement before its
definition (`Script.DefinesFirst`): interpretation would call the built-in one there.

* `Declaration.follower` — how the run of a node corresponds to the execution of its statement.
* `Script.Steady.body_eq_of_evaluated` — a node does what its statement did.
* `Script.Steady.exists_values` — all nodes of a script do what interpretation did.
-/

set_option autoImplicit false

namespace ReactiveScript

open Eval Relation

/-- Asking for a value leaves the log as it is. -/
@[simp] theorem Footprint.log_read (v : Visit) (j : NodeId) (f : Footprint) :
    (f.read v j).2.log = f.log := by
  simp only [read]
  split
  · rfl
  · rfl

namespace Declaration

/-! ## Parameters -/

/-- A parameter is the argument at its place. -/
theorem get?_scope {d : Declaration} {i : Nat} {j : NodeId} (v : Visit)
    (hi : d.dependencies[i]? = some j) :
    Table.get? (paramName i) (d.scope v).locals = some (v.arg i) := by
  refine Table.get?_of_mem ?_ (List.mem_map.2 ⟨i, ?_, rfl⟩)
  · rw [Table.keys, scope, Scope.ofLocals, List.map_map]
    exact List.nodup_range.map paramName_injective
  · exact List.mem_range.2 (List.getElem?_eq_some_iff.1 hi).1

/-- There are no other names in the scope of a node. -/
theorem get?_scope_of_ne {d : Declaration} {v : Visit} {n : String}
    (h : ∀ i < d.dependencies.length, n ≠ paramName i) :
    Table.get? n (d.scope v).locals = none := by
  refine Table.get?_eq_none_iff.2 fun hn => ?_
  obtain ⟨⟨_, _⟩, hmem, rfl⟩ := List.mem_map.1 hn
  obtain ⟨i, hi, heq⟩ := List.mem_map.1 hmem
  exact h i (List.mem_range.1 hi) (congrArg Prod.fst heq).symm

/-! ## A statement and its node -/

theorem file_setting (p : Program) (limit : Nat) (v : Visit) :
    (setting p limit v).file = (Script.setting p.file v.inputs limit).file := rfl

theorem limit_setting (p : Program) (limit : Nat) (v : Visit) :
    (setting p limit v).limit = (Script.setting p.file v.inputs limit).limit := rfl

theorem disorder_setting (p : Program) (limit : Nat) (v : Visit) :
    (setting p limit v).host.disorder = (Script.setting p.file v.inputs limit).host.disorder := rfl

/-- The execution of a statement on a machine, and a visit of its node.  Only executions that come
to a value have to be followed. -/
def follower (p : Program) (limit : Nat) (v : Visit) (m : Machine) (units : List OutputUnit) :
    Coupling Log Footprint where
  left := Script.setting p.file v.inputs limit
  right := setting p limit v
  leftFunctions := m.functions
  rightFunctions := p.functions
  leftGlobals := m.globals
  rightGlobals := []
  near l f := l.emitted.toList = units ++ f.log.emitted.toList ∧ l.clock.limit = none ∧
    f.log.clock.limit = none
  counts b _ := b = true
  counts_true _ := rfl
  counts_expired hc := hc
  counts_emit _ _ hc := hc
  counts_print _ hc := hc
  file_eq := file_setting p limit v
  limit_eq := limit_setting p limit v
  disorder_eq := disorder_setting p limit v
  expired := by
    rintro l f ⟨hunits, hl, hf⟩
    refine ⟨?_, hunits, hl, hf⟩
    show (f.log.clock.limit.filter _) = l.clock.limit.filter _
    rw [hl, hf]
    rfl
  input _ _ _ _ := rfl
  emit := by
    rintro l f site u ⟨hunits, hl, hf⟩
    refine ⟨?_, hl, hf⟩
    show (l.emitted.push u).toList = units ++ (f.log.emitted.push u).toList
    rw [Array.toList_push, Array.toList_push, hunits, List.append_assoc]
  print _ h := h

variable {p : Program} {limit : Nat} {v : Visit} {m : Machine} {units : List OutputUnit}

theorem not_counts_follower (l : Log) : ¬ (follower p limit v m units).counts false l :=
  Bool.false_ne_true

/-- A variable without a value makes interpretation fail. -/
theorem couples_lookup_of_none {n : String} (h : Table.get? n m.globals = none) {span : Span}
    (y : Eval Footprint Value) :
    Couples (follower p limit v m units) (fun _ => True)
      ((follower p limit v m units).left.lookup .module n span) y := by
  refine .machine (g := fun _ => y) fun m' hm => ?_
  have hglobals : m'.globals = m.globals := hm.2
  rw [hglobals, h]
  exact .fail_left _ span not_counts_follower y

/-- Asking for the value of a node follows a left run that has the answer at hand. -/
theorem couples_answer {k : Coupling Log Footprint} (answer : Option Value) {n : String} {span : Span}
    (hright : k.right = setting p limit v)
    (hread : ∀ {l f} (j : NodeId), k.near l f → k.near l (f.read v j).2)
    (h : answer = (p.global? n).bind (Table.get? · v.values)) :
    Couples k (fun _ => True) (answer.elim (Eval.fail (.name n) span) Eval.value)
      (Eval.ask (k.right.host.global n) >>= fun
        | some x => Eval.value x
        | none => Eval.fail (.name n) span) := by
  have hask : (answer.elim (Eval.fail (.name n) span) Eval.value : Eval Log Value)
      = Eval.ask (fun l => (answer, l)) >>=
          fun answer => answer.elim (Eval.fail (.name n) span) Eval.value := rfl
  rw [hask]
  refine .bind (.ask (fun hc => hc) fun l f hnear => ?_) fun answer _ => ?_
  · rw [hright, h, Program.global?]
    simp only [setting, Footprint.host]
    cases Table.get? n p.globals with
    | none => exact ⟨rfl, hnear⟩
    | some j => exact ⟨rfl, hread j hnear⟩
  · cases answer with
    | some x => exact .value trivial
    | none => exact .fail _ span

/-- A variable that stands for a node is followed if the node has come to the value of the
variable. -/
theorem outer_follower {n : String} (h : ∀ x, Table.get? n m.globals = some x →
    ∃ j, Table.get? n p.globals = some j ∧ Table.get? j v.values = some x) :
    (follower p limit v m units).Outer n := by
  intro span
  cases hn : Table.get? n m.globals with
  | none => exact couples_lookup_of_none hn _
  | some x =>
    obtain ⟨j, hj, hx⟩ := h x hn
    refine .machine fun m' hm => ?_
    have hglobals : m'.globals = m.globals := hm.2
    rw [hglobals, hn]
    refine couples_answer (some x) rfl (fun j hnear => ?_) ?_
    · simpa only [follower, Footprint.log_read] using hnear
    · rw [Program.global?, hj]
      exact hx.symm

end Declaration

/-- A machine after a run of statements with some account. -/
structure Machine.After (m : Machine) (entries : List Entry) : Prop where
  /-- The functions that were defined. -/
  functions_eq : m.functions
    = Table.ofList ((entries.filterMap fun e => e.slot.defines?).map fun d => (d.name, d))
  /-- The variables that were assigned. -/
  globals_eq : m.globals = Table.ofList (entries.filterMap Entry.binding?)
  /-- No call is under way. -/
  depth_eq : m.depth = 0

section Statement

variable {script : Script} {p : Program} {limit : Nat} {g : Graph} {d : Declaration}
  {after : List Slot} {node : NodeId} {kind : String} {span : Span} {binds : Option String}
  {e : Expr} {rename : String → String} {v : Visit} {m m' : Machine} {entries : List Entry}
  {units : List OutputUnit} {val : NodeId → Value} {n : String} {x : Value}

namespace Machine.After

/-- A variable that has a value stands for the statement that it has the value from. -/
theorem exists_of_global (hm : m.After entries)
    (hs : script.slots = entries.map Entry.slot ++ after) (hx : Table.get? n m.globals = some x) :
    ∃ entry ∈ entries, entry.value = x ∧
      script.bindings.resolve (entries.map Entry.slot).length n = some (entry.slot.id, false) ∧
      ∃ i, (i, entry.slot.id) ∈ script.bindings.of n := by
  rw [hm.globals_eq] at hx
  obtain ⟨entry, hentry, hvalue, i, hlast⟩ := Entry.exists_of_get? hx
  refine ⟨entry, hentry, hvalue, ?_, i, ?_⟩
  · rw [Script.bindings, hs]
    exact Bindings.resolve_of_before hlast
  · rw [Script.bindings, hs, Bindings.of_ofSlots, Bindings.binders_append]
    exact List.mem_append_left _ (List.mem_of_getLast? hlast)

/-- A function that can be called is one of the script. -/
theorem mem_functions (hm : m.After entries)
    (hs : script.slots = entries.map Entry.slot ++ after) {f : String} {fd : FunctionDef}
    (hf : Table.get? f m.functions = some fd) : fd ∈ script.functions ∧ fd.name = f := by
  rw [hm.functions_eq] at hf
  obtain ⟨fd', hfd, heq⟩ := List.mem_map.1 (Table.mem_of_get?_ofList hf)
  cases heq
  obtain ⟨entry, hentry, hdefines⟩ := List.mem_filterMap.1 hfd
  rw [← script.filterMap_defines?, hs]
  exact ⟨List.mem_filterMap.2 ⟨entry.slot, List.mem_append_left _ (List.mem_map_of_mem hentry),
    hdefines⟩, rfl⟩

/-- A function of the script that cannot be called yet is defined later. -/
theorem exists_of_function (hm : m.After entries)
    (hs : script.slots = entries.map Entry.slot ++ after) {f : String}
    (hf : Table.get? f m.functions = none) {fd : FunctionDef} (hfd : fd ∈ script.functions)
    (hname : fd.name = f) : ∃ s ∈ after, s.defines? = some fd := by
  rw [← script.filterMap_defines?, hs, List.filterMap_append, List.mem_append] at hfd
  refine List.mem_filterMap.1 (hfd.resolve_left fun hmem => ?_)
  rw [List.filterMap_map] at hmem
  rw [hm.functions_eq, Table.get?_eq_none_iff, Table.mem_keys_ofList] at hf
  exact hf (List.mem_map.2 ⟨(fd.name, fd), List.mem_map.2 ⟨fd, hmem, rfl⟩, hname⟩)

end Machine.After

/-! ## Looking for a statement in a run -/

namespace Stmt

theorem exists_of_slots {ss : List Stmt} {before after : List Slot} {s : Slot}
    (h : ss.filterMap slot? = before ++ s :: after) :
    ∃ pre stmt post, ss = pre ++ stmt :: post ∧ pre.filterMap slot? = before ∧
      stmt.slot? = some s := by
  obtain ⟨pre, rest, rfl, hpre, hrest⟩ := List.filterMap_eq_append_iff.1 h
  obtain ⟨skipped, stmt, post, rfl, hskipped, hstmt, -⟩ := List.filterMap_eq_cons_iff.1 hrest
  refine ⟨pre ++ skipped, stmt, post, by rw [List.append_assoc], ?_, hstmt⟩
  rw [List.filterMap_append, hpre, List.filterMap_eq_nil_iff.2 hskipped, List.append_nil]

/-- A statement of a run, with the machine that it is executed on and what it contributes. -/
theorem exists_of_account {script : Script} {file : String} {inputs : InputTable} {limit : Nat}
    {before after : List Slot} {s : Slot} {mEnd : Machine} {lEnd : Log}
    (hflat : ∀ s ∈ script.body, s.isFlat = true)
    (hplain : ∀ d ∈ script.functions, blockDefinesNothing d.body = true)
    (hrun : runAll (Script.setting file inputs limit) script.body (.fresh []) (.start none)
      = (.value (), mEnd, lEnd)) (hs : script.slots = before ++ s :: after) :
    ∃ (entries : List Entry) (m : Machine) (l : Log) (entry : Entry),
      entries.map Entry.slot = before ∧ m.After entries ∧ l.clock.limit = none ∧
      (∀ x ∈ entries, x ∈ account (Script.setting file inputs limit) script.body (.fresh [])
        (.start none)) ∧
      entry ∈ account (Script.setting file inputs limit) script.body (.fresh []) (.start none) ∧
      entry.slot = s ∧
      ((∃ node span fd, entry.slot = .definition node span fd ∧ entry.value = .null ∧
          entry.units = []) ∨
        ∃ node kind span binds e m' l', entry.slot = .statement node kind span binds e ∧
          evaluated (Script.setting file inputs limit) e span m l = (.value entry.value, m', l') ∧
          l'.emitted.toList = l.emitted.toList ++ entry.units) := by
  obtain ⟨pre, stmt, post, hbody, hpre, hstmt⟩ := exists_of_slots hs
  rw [Script.functions] at hplain
  rw [hbody] at hrun hflat hplain ⊢
  obtain ⟨m, l, hbefore, hrest, haccount⟩ := runAll_append hrun
  obtain ⟨m', l', htop, -⟩ := runAll_cons hrest
  have hflats := List.forall_mem_append.1 hflat
  rw [List.filterMap_append] at hplain
  obtain ⟨hm, hfunctions, hglobals, hdepth, -, hl⟩ := runAll_account hflats.1
    (fun f d hd => by cases hd) (List.forall_mem_append.1 hplain).1 rfl hbefore
  have hstmtFlat := hflats.2 stmt List.mem_cons_self
  have hemitted := (contributes_of_runTop hstmtFlat hm hl htop).emitted_eq
  have hentry : stmt.contribution? (Script.setting file inputs limit) m l
      = some ⟨s, valueOf (Script.setting file inputs limit) s stmt.span m l,
        l'.emitted.toList.drop l.emitted.size⟩ := by
    rw [contribution?, hstmt, htop]
    rfl
  have hslots : (account (Script.setting file inputs limit) pre (.fresh []) (.start none)).map
      Entry.slot = before := (map_slot_account _ pre _ _).trans hpre
  rw [hentry] at hemitted
  rw [haccount, account, hentry]
  refine ⟨_, m, l, _, hslots, ⟨?_, hglobals, hdepth⟩, hl, fun x hx => List.mem_append_left _ hx,
    List.mem_append_right _ (List.mem_append_left _ (Option.mem_toList.2 rfl)), rfl, ?_⟩
  · rw [hfunctions, ← filterMap_defines?, hpre, ← hslots, List.filterMap_map]
    rfl
  · rcases runTop_cases hstmtFlat htop with ⟨hslot, -⟩ | ⟨node, d, hslot, -, rfl, -⟩ |
      ⟨node, kind, binds, e, v, m₁, hslot, -, he, -⟩ <;> rw [hstmt] at hslot <;> cases hslot
    · refine Or.inl ⟨node, _, d, rfl, rfl, ?_⟩
      exact List.self_eq_append_right.1 hemitted
    · refine Or.inr ⟨node, kind, _, binds, e, m₁, l', rfl, ?_, hemitted⟩
      rw [valueOf_eq he]
      exact he

end Stmt

namespace Script

/-- No function that a statement can call hides a built-in one by a definition after the
statement. -/
def DefinesFirst (script : Script) : Prop :=
  ∀ before s after, script.slots = before ++ s :: after → ∀ e, s.expression? = some e →
    ∀ s' ∈ after, ∀ d, s'.defines? = some d → isBuiltin d.name = true →
      ¬ script.Reaches e d.name

namespace Steady

/-- The functions that a statement can call are followed by the node. -/
theorem callable_follower (limit : Nat) (units : List OutputUnit) (hsteady : script.Steady)
    (hfirst : script.DefinesFirst)
    (h : script.SplitsInto p) (hd : d ∈ p.nodes)
    (hs : script.slots = entries.map Entry.slot ++ .statement node kind span binds e :: after)
    (hdeclare : (Slot.statement node kind span binds e).declare script.bindings
      (entries.map Entry.slot).length = .ok d)
    (hm : m.After entries) (hval : ∀ entry ∈ entries, val entry.slot.id = entry.value)
    (hvalues : ∀ j, TransGen p.DependsOn d.id j → Table.get? j v.values = some (val j)) :
    (Declaration.follower p limit v m units).Callable (script.Reaches e) where
  same f hf := by
    show Table.get? f p.functions = Table.get? f m.functions ∨ Table.get? f m.functions = none ∧ _
    cases hleft : Table.get? f m.functions with
    | some fd => exact Or.inl (h.get?_functions.2 (hm.mem_functions hs hleft))
    | none =>
      cases hright : Table.get? f p.functions with
      | none => exact Or.inl rfl
      | some fd =>
        obtain ⟨hfd, hname⟩ := h.get?_functions.1 hright
        obtain ⟨s', hs', hdefines⟩ := hm.exists_of_function hs hleft hfd hname
        refine Or.inr ⟨rfl, ?_, Declaration.not_counts_follower⟩
        by_contra hbuiltin
        subst hname
        refine hfirst _ _ after hs e rfl s' ?_ fd hdefines (by simpa using hbuiltin) hf
        refine (List.mem_cons.1 hs').resolve_left fun heq => ?_
        rw [heq] at hdefines
        cases hdefines
  definesNothing f fd _ hfd := h.definesNothing fd (hm.mem_functions hs hfd).1
  closed f fd hf hfd f' hf' := by
    obtain ⟨hmem, rfl⟩ := hm.mem_functions hs hfd
    exact .inner hmem hf hf'
  outer f fd hf hfd n hn := by
    obtain ⟨hmem, rfl⟩ := hm.mem_functions hs hfd
    refine Declaration.outer_follower fun x hx => ?_
    obtain ⟨entry, hentry, hvalue, -, i, hi⟩ := hm.exists_of_global hs hx
    obtain ⟨hof, hdep⟩ := hsteady.transGen_of_exposes h hd hs hdeclare hmem hf hn hi
    refine ⟨entry.slot.id, ?_, ?_⟩
    · rw [h.globals_eq, bindings, Bindings.get?_globals, ← Bindings.of_ofSlots, ← bindings, hof]
      rfl
    · rw [hvalues _ hdep, hval entry hentry, hvalue]

/-- A variable that is no parameter has the value that it has for functions. -/
theorem get?_globals_of_shadowed (hsteady : script.Steady) (h : script.SplitsInto p)
    (hs : script.slots = entries.map Entry.slot ++ .statement node kind span binds e :: after)
    (hn : n ∈ e.names) (hfun : Table.has n script.bindings.functions = true) {j : NodeId}
    (hj : script.bindings.resolve (entries.map Entry.slot).length n = some (j, false)) :
    Table.get? n p.globals = some j := by
  obtain ⟨fd, hfd, rfl⟩ := h.has_nodes.1 hfun
  obtain ⟨s, hs', hbinds, hid⟩ := Bindings.exists_of_resolve hj
  have hglobal : ∃ j', Table.get? fd.name p.globals = some j' := by
    rw [h.globals_eq, bindings, Bindings.get?_globals]
    have hne : Bindings.binders fd.name 0 script.slots ≠ [] := fun hnil =>
      Bindings.binders_eq_nil_iff.1 hnil s hs' hbinds
    rw [List.getLast?_eq_some_getLast hne]
    exact ⟨_, rfl⟩
  obtain ⟨j', hj'⟩ := hglobal
  have hresolve := hsteady.resolve_of_shadowed hs hfd hn (h.globals_eq ▸ hj')
  rw [hj] at hresolve
  cases hresolve
  exact hj'

/-- The expression of a statement is followed by its node. -/
theorem couples_follower (limit : Nat) (units : List OutputUnit) (hsteady : script.Steady)
    (hfirst : script.DefinesFirst)
    (h : script.SplitsInto p) (hd : d ∈ p.nodes)
    (hs : script.slots = entries.map Entry.slot ++ .statement node kind span binds e :: after)
    (hdeclare : (Slot.statement node kind span binds e).declare script.bindings
      (entries.map Entry.slot).length = .ok d)
    (hrenames : script.Renames (entries.map Entry.slot).length e d rename)
    (hm : m.After entries) (hval : ∀ entry ∈ entries, val entry.slot.id = entry.value)
    (hargs : v.args = d.dependencies.map val)
    (hvalues : ∀ j, TransGen p.DependsOn d.id j → Table.get? j v.values = some (val j)) :
    Couples (Declaration.follower p limit v m units) (fun _ => True)
      (e.evalWith (setting p.file v.inputs limit)
        (FunctionDef.invoke (setting p.file v.inputs limit) limit) .module)
      ((e.mapWith id rename).evalWith (Declaration.setting p limit v)
        (FunctionDef.invoke (Declaration.setting p limit v) limit) (d.scope v)) := by
  have hcallable := callable_follower limit units hsteady hfirst h hd hs hdeclare hm hval hvalues
  have hcouples : Couples (Declaration.follower p limit v m units) (fun _ => True)
      ((e.mapWith id id).evalWith (setting p.file v.inputs limit)
        (FunctionDef.invoke (setting p.file v.inputs limit) limit) .module)
      ((e.mapWith id rename).evalWith (Declaration.setting p limit v)
        (FunctionDef.invoke (Declaration.setting p limit v) limit) (d.scope v)) := by
    refine Expr.couples_evalWith e ?_
    rintro (n | f) hx
    · have hn := Expr.mem_names.2 hx
      intro span'
      cases hglobal : Table.get? n m.globals with
      | none => exact Declaration.couples_lookup_of_none hglobal _
      | some x =>
        obtain ⟨entry, hentry, hvalue, hresolve, -⟩ := hm.exists_of_global hs hglobal
        have hdep : entry.slot.id ∈ d.dependencies := (hrenames.mem_dependencies _).2
          ⟨n, mem_pairs.2 (Or.inl ⟨hn, false, hresolve⟩)⟩
        have hentryValue : val entry.slot.id = x := (hval entry hentry).trans hvalue
        by_cases hfun : Table.has n script.bindings.functions = true
        · -- The variable keeps its name, and the node asks for its value.
          have houter : (Declaration.follower p limit v m units).Outer n := by
            refine Declaration.outer_follower fun y hy => ⟨entry.slot.id,
              hsteady.get?_globals_of_shadowed h hs hn hfun hresolve, ?_⟩
            rw [hvalues _ (.single (Program.dependsOn_of_mem hd hdep)), hentryValue, ← hglobal, hy]
          obtain ⟨fd, hfd, rfl⟩ := h.has_nodes.1 hfun
          obtain ⟨s', hs', hbinds, -⟩ := Bindings.exists_of_resolve hresolve
          have hnone : Table.get? fd.name (d.scope v).locals = none :=
            Declaration.get?_scope_of_ne fun i _ => hsteady.param _
              (hs ▸ List.mem_append_right _ List.mem_cons_self) e rfl fd hfd hn s' hs' hbinds i
          rw [hrenames.same _ hn (Or.inl hfun), Setting.lookup_of_not_local hnone]
          exact houter span'
        · obtain ⟨i, hi, hdep⟩ := hrenames.param n hn _ _ hresolve (by simpa using hfun)
          have harg : v.arg i = x := by
            rw [Visit.arg, hargs, List.getElem?_map, hdep, ← hentryValue]
            rfl
          rw [hi, Setting.lookup_of_local (Declaration.get?_scope v hdep), harg]
          exact Setting.couples_lookup_of_global hglobal _
    · exact hcallable.couples_call limit (.call (Expr.mem_calls.2 hx))
  rwa [Expr.mapWith_id] at hcouples

/-- **A node comes to the value that its statement had, and emits the units that this emitted.** -/
theorem body_eq_of_evaluated (hsteady : script.Steady) (hfirst : script.DefinesFirst)
    (h : script.SplitsInto p) (hd : d ∈ p.nodes)
    (hs : script.slots = entries.map Entry.slot ++ .statement node kind span binds e :: after)
    (hdeclare : (Slot.statement node kind span binds e).declare script.bindings
      (entries.map Entry.slot).length = .ok d)
    (hm : m.After entries) (hval : ∀ entry ∈ entries, val entry.slot.id = entry.value)
    {l l' : Log} (hl : l.clock.limit = none) (hlimit : v.limit = none)
    (hevaluated : Stmt.evaluated (setting p.file v.inputs limit) e span m l = (.value x, m', l'))
    (hargs : v.args = d.dependencies.map val)
    (hvalues : ∀ j, TransGen p.DependsOn d.id j → Table.get? j v.values = some (val j)) :
    ∃ f, d.body p limit v = ⟨.value x, f⟩ ∧
      l'.emitted.toList = l.emitted.toList ++ f.log.emitted.toList := by
  obtain ⟨rename, hrenames⟩ := h.renames hdeclare
  have hcouples := couples_follower limit l.emitted.toList hsteady hfirst h hd hs hdeclare hrenames hm
    hval hargs hvalues
  have hspan : d.span = span := by
    cases hdeclare
    rfl
  have hinvocation : (setting p.file v.inputs limit).invocation m
      = FunctionDef.invoke (setting p.file v.inputs limit) limit := by
    rw [Setting.invocation, hm.depth_eq]
    rfl
  have hmirror : (Declaration.follower p limit v m l.emitted.toList).mirror (m.anchored span)
      = d.machine p := by
    rw [Coupling.mirror, Declaration.machine, hspan]
    show Machine.mk _ _ _ _ m.depth = _
    rw [hm.depth_eq]
    rfl
  rw [Stmt.evaluated, hinvocation] at hevaluated
  have hnear : (Declaration.follower p limit v m l.emitted.toList).near l (.start v) := by
    refine ⟨(List.append_nil _).symm, hl, ?_⟩
    rw [Footprint.start, Visit.deadline, hlimit]
    rfl
  have hfollows := hcouples.follows (m.anchored span) l (.start v) ⟨rfl, rfl⟩ hnear
  rw [hevaluated, hmirror] at hfollows
  obtain ⟨f, hf, hunits, -, -⟩ := hfollows rfl
  have hevaluation : d.evaluation p limit (e.mapWith id rename) v = (.value x, _, f) := hf
  refine ⟨f, ?_, hunits⟩
  rw [Declaration.body_eq hrenames.task_eq, hevaluation]
  rfl

/-- **The nodes of a script do what interpretation does.**  There is a value for every node, such
that a node that gets the values of what it depends on comes to its own value and emits the units
that its statement contributed. -/
theorem exists_values (hsteady : script.Steady) (hfirst : script.DefinesFirst)
    (h : script.SplitsInto p) {inputs : InputTable}
    (hinterpret : script.interpret p.file inputs limit = .ok units) :
    ∃ val : NodeId → Value, ∀ d ∈ p.nodes, ∃ us,
      (d.id, us) ∈ script.contributions p.file inputs limit ∧
      ∀ v : Visit, v.inputs = inputs → v.limit = none → v.args = d.dependencies.map val →
        (∀ j, TransGen p.DependsOn d.id j → Table.get? j v.values = some (val j)) →
        ∃ f, d.body p limit v = ⟨.value (val d.id), f⟩ ∧ f.log.emitted.toList = us := by
  obtain ⟨m, l, hrun, -⟩ := exists_runAll_of_interpret hinterpret
  obtain ⟨all, hall⟩ : ∃ all, Stmt.account (setting p.file inputs limit) script.body (.fresh [])
      (.start none) = all := ⟨_, rfl⟩
  have hslots : all.map Entry.slot = script.slots := by
    rw [← hall, Stmt.map_slot_account]
    rfl
  let val (j : NodeId) : Value :=
    (Table.get? j (all.map fun entry => (entry.slot.id, entry.value))).getD .null
  have hval : ∀ entry ∈ all, val entry.slot.id = entry.value := by
    intro entry hentry
    have hkeys : (Table.keys (all.map fun entry => (entry.slot.id, entry.value))).Nodup := by
      have hids := h.ids_nodup
      rw [← hslots, List.map_map] at hids
      rwa [Table.keys, List.map_map]
    show (Table.get? entry.slot.id _).getD _ = _
    rw [Table.get?_of_mem hkeys (List.mem_map.2 ⟨entry, hentry, rfl⟩)]
    rfl
  refine ⟨val, fun d hd => ?_⟩
  obtain ⟨before, s, after, hs, hdeclare⟩ := h.exists_slot hd
  obtain ⟨entries, m, l, entry, rfl, hm, hl, hentries, hentry, rfl, hcases⟩ :=
    Stmt.exists_of_account h.flat h.definesNothing hrun hs
  rw [hall] at hentries hentry
  have hid : d.id = entry.slot.id := Slot.id_declare hdeclare
  refine ⟨entry.units, List.mem_map.2 ⟨entry, hall ▸ hentry, by rw [hid]⟩, ?_⟩
  rw [hid, hval entry hentry]
  rintro v rfl hlimit hargs hvalues
  rcases hcases with ⟨node, span, fd, hslot, hvalue, hunits⟩ |
    ⟨node, kind, span, binds, e, m', l', hslot, hevaluated, hemitted⟩
  · rw [hslot] at hdeclare
    rw [Declaration.body_eq_idle (stands hdeclare).task_eq, hvalue, hunits]
    exact ⟨_, rfl, rfl⟩
  · rw [hslot] at hdeclare hs
    rw [← hid] at hvalues
    obtain ⟨f, hf, hunits⟩ := hsteady.body_eq_of_evaluated hfirst h hd hs hdeclare hm
      (fun entry' hentry' => hval entry' (hentries entry' hentry')) hl hlimit hevaluated hargs hvalues
    refine ⟨f, hf, ?_⟩
    rw [hunits] at hemitted
    exact List.append_cancel_left hemitted

end Steady

end Script

end Statement

end ReactiveScript

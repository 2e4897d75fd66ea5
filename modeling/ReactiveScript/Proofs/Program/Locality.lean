import ReactiveScript.Proofs.Graph.Settled
import ReactiveScript.Proofs.Program.Steady

/-!
# The nodes of a steady script are local

What a node of a steady script does is a matter of its arguments, the values of what it depends on,
and the inputs of the units that it emits.

* `Declaration.evaluation` — what a node does, with the machine it ends in.
* `Script.LooksUp` — where the values come from that are looked up by name.
* `Script.LooksUp.evaluation_eq` — two visits that agree about all this come to the same.
* `Script.SplitsInto.heedsOwnUnits` — nodes look at the inputs of their own units only.
* `Script.Steady.isLocal` — a graph of a steady script is local.
-/

set_option autoImplicit false

namespace ReactiveScript

open Eval Relation

namespace Declaration

/-- The setting in which the expression of a node is evaluated. -/
def setting (p : Program) (limit : Nat) (v : Visit) : Setting Footprint :=
  ⟨p.file, limit, Footprint.host v (Table.get? · p.globals)⟩

/-- The machine on which the expression of a node is evaluated. -/
def machine (p : Program) (d : Declaration) : Machine := (Machine.fresh p.functions).anchored d.span

/-- Evaluating an expression at a visit of a node. -/
def evaluation (p : Program) (limit : Nat) (d : Declaration) (e : Expr) (v : Visit) :
    Ending EvalError Value × Machine × Footprint :=
  e.eval (setting p limit v) (d.scope v) (machine p d) (.start v)

theorem body_eq {d : Declaration} {e : Expr} (h : d.task = .expression e) (p : Program)
    (limit : Nat) (v : Visit) :
    d.body p limit v
      = ⟨outcome (d.evaluation p limit e v).1, (d.evaluation p limit e v).2.2⟩ := by
  rw [body, h]
  rfl

theorem body_eq_idle {d : Declaration} {fd : FunctionDef} (h : d.task = .definition fd)
    (p : Program) (limit : Nat) : d.body p limit = Body.idle := by
  funext v
  rw [body, h]

/-! ## Two visits -/

/-- Two visits of a node that look at values nearby only.  The second one has to follow the first
if no unit that this emitted has another input. -/
def coupling (p : Program) (limit : Nat) (v w : Visit) (near : NodeId → Prop) :
    Coupling Footprint Footprint where
  left := setting p limit v
  right := setting p limit w
  leftFunctions := p.functions
  rightFunctions := p.functions
  leftGlobals := []
  rightGlobals := []
  near f f' := f' = f ∧ ∀ j ∈ f.reads, near j
  counts _ f := ∀ u ∈ f.log.emitted.toList, Table.get? u.id w.inputs = Table.get? u.id v.inputs
  counts_true hc := hc
  counts_expired hc := hc
  counts_emit {_ f} _ u hc u' hu' := by
    refine hc u' ?_
    show u' ∈ (f.log.emitted.push u).toList
    rw [Array.toList_push]
    exact List.mem_append_left _ hu'
  counts_print _ hc := hc
  file_eq := rfl
  limit_eq := rfl
  disorder_eq := rfl
  expired := by
    rintro f _ ⟨rfl, hreads⟩
    exact ⟨rfl, rfl, hreads⟩
  input := by
    rintro _ f site u ⟨rfl, -⟩ hc
    refine hc u ?_
    show u ∈ (f.log.emitted.push u).toList
    rw [Array.toList_push]
    exact List.mem_append_right _ (List.mem_singleton_self u)
  emit := by
    rintro f _ site u ⟨rfl, hreads⟩
    exact ⟨rfl, hreads⟩
  print := by
    rintro f _ line ⟨rfl, hreads⟩
    exact ⟨rfl, hreads⟩

variable {p : Program} {limit : Nat} {v w : Visit} {near : NodeId → Prop}

/-- A variable that stands for a node nearby is followed. -/
theorem outer_coupling {n : String} (hnear : ∀ j, Table.get? n p.globals = some j → near j)
    (hvalues : ∀ j, near j → Table.get? j v.values = Table.get? j w.values) :
    (coupling p limit v w near).Outer n := by
  intro span
  refine .machine fun m hm => ?_
  have hglobals : m.globals = [] := hm.2
  rw [hglobals]
  refine .bind (.ask (fun {_ f} hc => ?_) ?_) fun value _ => ?_
  · simp only [coupling, setting, Footprint.host] at hc ⊢
    cases hn : Table.get? n p.globals with
    | none => rwa [hn] at hc
    | some j =>
      simp only [hn, Footprint.read] at hc
      split at hc
      · exact hc
      · exact hc
  · rintro _ f ⟨rfl, hreads⟩
    simp only [coupling, setting, Footprint.host]
    cases hn : Table.get? n p.globals with
    | none => exact ⟨rfl, rfl, hreads⟩
    | some j =>
      refine ⟨(hvalues j (hnear j hn)).symm, rfl, ?_⟩
      simp only [Footprint.read]
      split
      · exact hreads
      · intro i hi
        rcases List.mem_append.1 hi with hi | hi
        · exact hreads i hi
        · rw [List.mem_singleton.1 hi]
          exact hnear j hn
  · cases value with
    | some value => exact .value trivial
    | none => exact .fail _ span

end Declaration

namespace Script

variable {script : Script} {p : Program} {limit : Nat} {g : Graph} {d : Declaration}
  {before after : List Slot} {node : NodeId} {kind : String} {span : Span}
  {binds : Option String} {e : Expr} {rename : String → String} {v w : Visit}
  {near : NodeId → Prop}

/-- What a variable without assignments stands for. -/
theorem resolve_eq_none_iff {position : Nat} {n : String} :
    script.bindings.resolve position n = none ↔ script.bindings.of n = [] := by
  rw [Bindings.resolve]
  split
  · rename_i hfind
    refine ⟨fun h => absurd h (Option.some_ne_none _), fun h => ?_⟩
    rw [h] at hfind
    cases hfind
  · rw [Option.map_eq_none_iff, List.head?_eq_none_iff]

theorem SplitsInto.mem_of_get?_globals (h : script.SplitsInto p) {n : String} {j : NodeId}
    (hj : Table.get? n p.globals = some j) : ∃ i, (i, j) ∈ script.bindings.of n := by
  rw [h.globals_eq, bindings, Bindings.get?_globals, ← Bindings.of_ofSlots] at hj
  obtain ⟨⟨i, j'⟩, hlast, rfl⟩ := Option.map_eq_some_iff.1 hj
  exact ⟨i, List.mem_of_getLast? hlast⟩

/-- A name that is not renamed although it has been assigned somewhere is that of a function. -/
theorem SplitsInto.exists_function_of_kept (h : script.SplitsInto p) {position : Nat} {n : String}
    (hkept : Table.has n script.bindings.functions = true ∨
      script.bindings.resolve position n = none)
    {j : NodeId} (hj : Table.get? n p.globals = some j) : ∃ fd ∈ script.functions, fd.name = n := by
  refine h.has_nodes.1 (hkept.resolve_right ?_)
  obtain ⟨i, hi⟩ := h.mem_of_get?_globals hj
  rw [resolve_eq_none_iff]
  exact List.ne_nil_of_mem hi

/-- Every node whose value is looked up by name when an expression is evaluated is nearby. -/
structure LooksUp (script : Script) (p : Program) (position : Nat) (e : Expr)
    (near : NodeId → Prop) : Prop where
  /-- A function exposes variables. -/
  exposed : ∀ fd ∈ script.functions, script.Reaches e fd.name → ∀ n, fd.exposes n = true →
    ∀ j, Table.get? n p.globals = some j → near j
  /-- The expression reads variables that no parameter takes the place of. -/
  kept : ∀ n ∈ e.names, Table.has n script.bindings.functions = true ∨
    script.bindings.resolve position n = none → ∀ j, Table.get? n p.globals = some j → near j

namespace LooksUp

/-- The functions that a statement can call follow each other at two visits. -/
theorem callable (hlooks : script.LooksUp p before.length e near) (limit : Nat)
    (h : script.SplitsInto p) (hvalues : ∀ j, near j → Table.get? j v.values = Table.get? j w.values) :
    (Declaration.coupling p limit v w near).Callable (script.Reaches e) where
  same f _ := Or.inl rfl
  definesNothing f fd _ hfd := h.definesNothing fd (h.get?_functions.1 hfd).1
  closed f fd hf hfd f' hf' := by
    obtain ⟨hmem, rfl⟩ := h.get?_functions.1 hfd
    exact .inner hmem hf hf'
  outer f fd hf hfd n hn := by
    obtain ⟨hmem, rfl⟩ := h.get?_functions.1 hfd
    exact Declaration.outer_coupling (hlooks.exposed fd hmem hf n hn) hvalues

/-- The expression of a node is followed at a second visit that agrees about arguments and values
nearby. -/
theorem couples_statement (hlooks : script.LooksUp p before.length e near) (limit : Nat)
    (h : script.SplitsInto p) (hrenames : script.Renames before.length e d rename)
    (hargs : v.args = w.args)
    (hvalues : ∀ j, near j → Table.get? j v.values = Table.get? j w.values) :
    Couples (Declaration.coupling p limit v w near) (fun _ => True)
      ((e.mapWith id rename).evalWith (Declaration.setting p limit v)
        (FunctionDef.invoke (Declaration.setting p limit v) limit) (d.scope v))
      ((e.mapWith id rename).evalWith (Declaration.setting p limit w)
        (FunctionDef.invoke (Declaration.setting p limit w) limit) (d.scope w)) := by
  have hscope : d.scope w = d.scope v := by
    have harg : w.arg = v.arg := by
      funext i
      rw [Visit.arg, Visit.arg, hargs]
    rw [Declaration.scope, Declaration.scope, harg]
  have hcallable := hlooks.callable limit h hvalues
  rw [hscope]
  refine Expr.couples_evalWith e ?_
  rintro (n | f) hx
  · have hn := Expr.mem_names.2 hx
    refine Setting.couples_lookup ?_
    by_cases hfun : Table.has n script.bindings.functions = true
    · rw [hrenames.same n hn (Or.inl hfun)]
      exact Or.inr (Declaration.outer_coupling (hlooks.kept n hn (Or.inl hfun)) hvalues)
    · cases hresolve : script.bindings.resolve before.length n with
      | none =>
        rw [hrenames.same n hn (Or.inr hresolve)]
        exact Or.inr (Declaration.outer_coupling (hlooks.kept n hn (Or.inr hresolve)) hvalues)
      | some x =>
        obtain ⟨i, hi, hdep⟩ := hrenames.param n hn x.1 x.2 hresolve (by simpa using hfun)
        rw [hi]
        refine Or.inl (Table.has_iff.2 (List.mem_map.2 ⟨(paramName i, v.arg i), ?_, rfl⟩))
        exact List.mem_map.2 ⟨i, List.mem_range.2 (List.getElem?_eq_some_iff.1 hdep).1, rfl⟩
  · exact hcallable.couples_call limit (.call (Expr.mem_calls.2 hx))

/-- **A visit that agrees with another one about arguments, values nearby, and the inputs of the
units that this one emitted, comes to the same.**  It asks for no values but those nearby. -/
theorem evaluation_eq (hlooks : script.LooksUp p before.length e near) (limit : Nat)
    (h : script.SplitsInto p) (hrenames : script.Renames before.length e d rename)
    (hargs : v.args = w.args) (hlimit : v.limit = w.limit)
    (hvalues : ∀ j, near j → Table.get? j v.values = Table.get? j w.values)
    (hinputs : ∀ u ∈ (d.evaluation p limit (e.mapWith id rename) v).2.2.log.emitted.toList,
      Table.get? u.id w.inputs = Table.get? u.id v.inputs) :
    d.evaluation p limit (e.mapWith id rename) w = d.evaluation p limit (e.mapWith id rename) v ∧
      ∀ j ∈ (d.evaluation p limit (e.mapWith id rename) v).2.2.reads, near j := by
  have hcouples := hlooks.couples_statement limit h hrenames hargs hvalues
  have hstart : Footprint.start w = Footprint.start v := by
    rw [Footprint.start, Footprint.start, Visit.deadline, Visit.deadline, hlimit]
  have hnear : (Declaration.coupling p limit v w near).near (.start v) (.start v) :=
    ⟨rfl, List.forall_mem_nil _⟩
  obtain ⟨f, hf, rfl, hreads⟩ := hcouples.follows (d.machine p) (.start v) (.start v) ⟨rfl, rfl⟩
    hnear hinputs
  rw [Coupling.mirror_of_own _ (hcouples.own (d.machine p) (.start v) ⟨rfl, rfl⟩) rfl rfl] at hf
  refine ⟨?_, hreads⟩
  rw [Declaration.evaluation, hstart]
  exact hf

/-- A node asks for no values but those nearby. -/
theorem mem_reads (hlooks : script.LooksUp p before.length e near) (h : script.SplitsInto p)
    (hdeclare : (Slot.statement node kind span binds e).declare script.bindings before.length = .ok d)
    {j : NodeId} (hj : j ∈ (d.body p limit v).footprint.reads) : near j := by
  obtain ⟨rename, hrenames⟩ := h.renames hdeclare
  rw [Declaration.body_eq hrenames.task_eq] at hj
  exact (hlooks.evaluation_eq limit h hrenames (w := v) rfl rfl (fun _ _ => rfl)
    fun _ _ => rfl).2 j hj

end LooksUp

/-- A definition asks for no values. -/
theorem reads_definition {fd : FunctionDef}
    (hdeclare : (Slot.definition node span fd).declare script.bindings before.length = .ok d) :
    (d.body p limit v).footprint.reads = [] := by
  rw [Declaration.body_eq_idle (stands hdeclare).task_eq]
  rfl

/-- **The nodes of a script look at the inputs of their own units only.** -/
theorem SplitsInto.heedsOwnUnits (h : script.SplitsInto p) (hg : p.Installed limit g) {j : NodeId}
    {n : Node} (hn : g.node? j = some n) : n.body.HeedsOwnUnits := by
  obtain ⟨d, hd, rfl, hcore⟩ := hg.exists_declaration hn
  have hbody : n.body = d.body p limit := (congrArg Node.body hcore :)
  rw [hbody]
  obtain ⟨before, s, after, hs, hdeclare⟩ := h.exists_slot hd
  cases s with
  | statement node kind span binds e =>
    obtain ⟨rename, hrenames⟩ := h.renames hdeclare
    have hlooks : script.LooksUp p before.length e fun _ => True :=
      ⟨fun _ _ _ _ _ _ _ => trivial, fun _ _ _ _ _ => trivial⟩
    intro v inputs hinputs
    rw [Declaration.body_eq hrenames.task_eq] at hinputs ⊢
    rw [Declaration.body_eq hrenames.task_eq, (hlooks.evaluation_eq limit h hrenames
      (v := v) (w := { v with inputs }) rfl rfl (fun _ _ => rfl) hinputs).1]
  | definition node span fd =>
    intro v inputs _
    rw [Declaration.body_eq_idle (stands hdeclare).task_eq]
    rfl

namespace Steady

/-- In a steady script, all that is looked up is something that the statement depends on. -/
theorem looksUp (hsteady : script.Steady) (h : script.SplitsInto p) (hd : d ∈ p.nodes)
    (hs : script.slots = before ++ .statement node kind span binds e :: after)
    (hdeclare : (Slot.statement node kind span binds e).declare script.bindings before.length = .ok d) :
    script.LooksUp p before.length e (TransGen p.DependsOn d.id) where
  exposed fd hfd hf n hn j hj := by
    obtain ⟨i, hi⟩ := h.mem_of_get?_globals hj
    exact (hsteady.transGen_of_exposes h hd hs hdeclare hfd hf hn hi).2
  kept n hn hsame j hj := by
    obtain ⟨rename, hrenames⟩ := h.renames hdeclare
    obtain ⟨fd, hfd, rfl⟩ := h.exists_function_of_kept hsame hj
    rw [h.globals_eq] at hj
    refine .single (Program.dependsOn_of_mem hd ((hrenames.mem_dependencies j).2 ⟨fd.name, ?_⟩))
    exact mem_pairs.2 (Or.inl ⟨hn, false, hsteady.resolve_of_shadowed hs hfd hn hj⟩)

/-- The node of a statement is local. -/
theorem localTo_statement (hsteady : script.Steady) (h : script.SplitsInto p) (hd : d ∈ p.nodes)
    (hs : script.slots = before ++ .statement node kind span binds e :: after)
    (hdeclare : (Slot.statement node kind span binds e).declare script.bindings before.length = .ok d) :
    (d.body p limit).LocalTo d.id (TransGen p.DependsOn d.id) := by
  obtain ⟨rename, hrenames⟩ := h.renames hdeclare
  have hlooks := hsteady.looksUp h hd hs hdeclare
  refine ⟨fun v w _ _ hvl hwl hargs hinputs hvalues => ?_, fun v _ _ j hj =>
    hlooks.mem_reads h hdeclare hj⟩
  have heq := (hlooks.evaluation_eq limit h hrenames hargs (hvl.trans hwl.symm) hvalues
    fun _ _ => by rw [hinputs]).1
  rw [Declaration.body_eq hrenames.task_eq, Declaration.body_eq hrenames.task_eq, heq]
  exact ⟨rfl, rfl⟩

/-- **The graph of a steady script is local.** -/
theorem isLocal (hsteady : script.Steady) (h : script.SplitsInto p) (hg : p.Installed limit g) :
    g.Local := by
  intro j n hn
  obtain ⟨d, hd, rfl, hcore⟩ := hg.exists_declaration hn
  have hbody : n.body = d.body p limit := (congrArg Node.body hcore :)
  rw [hbody, hg.dependsOn_eq]
  obtain ⟨before, s, after, hs, hdeclare⟩ := h.exists_slot hd
  cases s with
  | statement node kind span binds e => exact hsteady.localTo_statement h hd hs hdeclare
  | definition node span fd =>
    refine ⟨fun v w _ _ _ _ _ _ _ => ?_, fun v _ _ j hj => ?_⟩
    · rw [Declaration.body_eq_idle (stands hdeclare).task_eq]
      exact ⟨rfl, rfl⟩
    · rw [reads_definition hdeclare] at hj
      cases hj

end Steady

end Script

end ReactiveScript

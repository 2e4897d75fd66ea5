import ReactiveScript.Proofs.Program.Installed

/-!
# Names that stand for the same at all times

The value of a name that is looked up while a node runs is that of the node that assigns it last,
and nothing but the dependencies of a node make sure that this one has run by then.  In a steady
script that is enough.  What goes wrong otherwise is this.

* A function that a statement can call reads a variable before it assigns it.  For the function the
  variable is its own, so it does not depend on the node, but the look-up goes there.
* A statement reads a variable with the name of a function.  Such variables are not renamed, so they
  are looked up, which gives the last value of the variable and not the one that the statement
  depends on, or a parameter if the variable has the name of one.

`Script.Steady` rules this out, and `Steady.transGen_of_exposes` and `Steady.resolve_of_shadowed` say
that every look-up then leads to a node that the statement depends on.
-/

set_option autoImplicit false

namespace ReactiveScript

open Relation

namespace Stmt

mutual

theorem mem_mentions_of_exposes {n : String} : (s : Stmt) → s.exposes n = true →
    .inl n ∈ s.mentions
  | .assign _ _ e, h => Expr.mem_names.1 (List.contains_iff_mem.1 h)
  | .expr _ e, h => Expr.mem_names.1 (List.contains_iff_mem.1 h)
  | .define .., h => by cases h
  | .result _ none, h => by cases h
  | .result _ (some e), h => Expr.mem_names.1 (List.contains_iff_mem.1 h)
  | .choose _ branches otherwise, h => by
    rw [exposes, Bool.or_eq_true] at h
    rw [mentions, List.mem_append]
    exact h.imp (mem_mentions_of_branchesExpose branches) (mem_mentions_of_blockExposes otherwise)
  | .loop _ target series body, h => by
    rw [exposes, Bool.or_eq_true, Bool.and_eq_true] at h
    rw [mentions, List.mem_append]
    exact h.imp (fun h => Expr.mem_names.1 (List.contains_iff_mem.1 h))
      fun h => mem_mentions_of_blockExposes body h.2
  | .pass _, h => by cases h

theorem mem_mentions_of_blockExposes {n : String} : (ss : List Stmt) →
    blockExposes n ss = true → .inl n ∈ blockMentions ss
  | [], h => by cases h
  | s :: rest, h => by
    rw [blockExposes, Bool.or_eq_true, Bool.and_eq_true] at h
    rw [blockMentions, List.mem_append]
    exact h.imp (mem_mentions_of_exposes s) fun h => mem_mentions_of_blockExposes rest h.2

theorem mem_mentions_of_branchesExpose {n : String} : (bs : List (Expr × List Stmt)) →
    branchesExpose n bs = true → .inl n ∈ branchMentions bs
  | [], h => by cases h
  | (test, body) :: rest, h => by
    rw [branchesExpose, Bool.or_eq_true, Bool.or_eq_true] at h
    rw [branchMentions, List.mem_append, List.mem_append]
    exact h.imp (Or.imp (fun h => Expr.mem_names.1 (List.contains_iff_mem.1 h))
      (mem_mentions_of_blockExposes body)) (mem_mentions_of_branchesExpose rest)

end

end Stmt

theorem FunctionDef.mem_mentions_of_exposes {d : FunctionDef} {n : String}
    (h : d.exposes n = true) : .inl n ∈ Stmt.blockMentions d.body := by
  rw [exposes, Bool.and_eq_true] at h
  exact Stmt.mem_mentions_of_blockExposes d.body h.2

namespace Script

/-- The functions that evaluating an expression can call, directly or from inside each other. -/
inductive Reaches (script : Script) (e : Expr) : String → Prop
  /-- A function that the expression calls. -/
  | call {f : String} : f ∈ e.calls → Reaches script e f
  /-- A function that is called inside another one. -/
  | inner {d : FunctionDef} {f : String} : d ∈ script.functions → Reaches script e d.name →
      .inr f ∈ Stmt.blockMentions d.body → Reaches script e f

/-- A script in which every name that a statement can look up stands for the same at all times. -/
structure Steady (script : Script) : Prop where
  /-- What a function reads before it assigns it is no variable of the script, if a statement can call
  the function. -/
  exposed : ∀ s ∈ script.slots, ∀ e, s.expression? = some e → ∀ d ∈ script.functions,
    script.Reaches e d.name → ∀ n ∈ d.locals, d.exposes n = true →
      ∀ s' ∈ script.slots, s'.binds? ≠ some n
  /-- A variable with the name of a function is not assigned any more once it has been read. -/
  shadowed : ∀ before s after, script.slots = before ++ s :: after → ∀ e, s.expression? = some e →
    ∀ d ∈ script.functions, d.name ∈ e.names → ∀ s' ∈ s :: after, s'.binds? ≠ some d.name
  /-- A variable with the name of a function does not have the name of a parameter, if a statement
  reads it. -/
  param : ∀ s ∈ script.slots, ∀ e, s.expression? = some e → ∀ d ∈ script.functions, d.name ∈ e.names →
    ∀ s' ∈ script.slots, s'.binds? = some d.name → ∀ i, d.name ≠ paramName i

/-- A script without functions is steady. -/
theorem steady_of_functions_eq_nil {script : Script} (h : script.functions = []) : script.Steady where
  exposed _ _ _ _ d hd := by rw [h] at hd; cases hd
  shadowed _ _ _ _ _ _ d hd := by rw [h] at hd; cases hd
  param _ _ _ _ d hd := by rw [h] at hd; cases hd

/-! ## What is looked up -/

section Lookup

variable {script : Script} {p : Program} {d : Declaration}
  {before after : List Slot} {node : NodeId} {kind : String} {span : Span}
  {binds : Option String} {e : Expr}

/-- A node depends on the functions that it can call. -/
theorem SplitsInto.transGen_of_reaches (h : script.SplitsInto p) (hd : d ∈ p.nodes)
    (hdeclare : (Slot.statement node kind span binds e).declare script.bindings before.length = .ok d)
    {f : String} (hf : script.Reaches e f) {j : NodeId}
    (hj : Table.get? f script.bindings.functions = some j) : TransGen p.DependsOn d.id j := by
  induction hf generalizing j with
  | call hf =>
    obtain ⟨rename, hrenames⟩ := h.renames hdeclare
    refine .single (Program.dependsOn_of_mem hd ?_)
    exact (hrenames.mem_dependencies j).2 ⟨_, mem_pairs.2 (Or.inr ⟨hf, hj⟩)⟩
  | @inner fd f hfd _ hf ih =>
    obtain ⟨s, hs, hdefines⟩ : ∃ s ∈ script.slots, s.defines? = some fd := by
      rw [← script.filterMap_defines?] at hfd
      exact List.mem_filterMap.1 hfd
    refine .tail (ih (h.get?_nodes.2 ⟨s, hs, fd, hdefines, rfl, rfl⟩)) ?_
    obtain ⟨before, after, hsplit⟩ := List.append_of_mem hs
    obtain ⟨d', hd', hdeclare'⟩ := h.declared hsplit
    cases s with
    | statement => cases hdefines
    | definition node' span' fd' =>
      cases hdefines
      rw [← Slot.id_declare hdeclare']
      exact Program.dependsOn_of_mem hd' ((stands hdeclare').mem_of_call f j hf hj)

/-- What a function exposes and does not assign stands for one node, and what can call the function
depends on it. -/
theorem SplitsInto.transGen_of_exposes (h : script.SplitsInto p) (hd : d ∈ p.nodes)
    (hdeclare : (Slot.statement node kind span binds e).declare script.bindings before.length = .ok d)
    {fd : FunctionDef} (hfd : fd ∈ script.functions) (hf : script.Reaches e fd.name) {n : String}
    (hn : fd.exposes n = true) (hlocal : n ∉ fd.locals) {x : Nat × NodeId}
    (hx : x ∈ script.bindings.of n) :
    script.bindings.of n = [x] ∧ TransGen p.DependsOn d.id x.2 := by
  obtain ⟨s, hs, hdefines⟩ : ∃ s ∈ script.slots, s.defines? = some fd := by
    rw [← script.filterMap_defines?] at hfd
    exact List.mem_filterMap.1 hfd
  have hreaches := h.transGen_of_reaches hd hdeclare hf
    (h.get?_nodes.2 ⟨s, hs, fd, hdefines, rfl, rfl⟩)
  obtain ⟨before, after, hsplit⟩ := List.append_of_mem hs
  obtain ⟨d', hd', hdeclare'⟩ := h.declared hsplit
  cases s with
  | statement => cases hdefines
  | definition node' span' fd' =>
    cases hdefines
    obtain ⟨hof, hmem⟩ := (stands hdeclare').mem_of_name n x
      (FunctionDef.mem_mentions_of_exposes hn) hlocal hx
    refine ⟨hof, hreaches.tail ?_⟩
    rw [← Slot.id_declare hdeclare']
    exact Program.dependsOn_of_mem hd' hmem

namespace Steady

/-- What a function exposes stands for one node, and what can call the function depends on it. -/
theorem transGen_of_exposes (hsteady : script.Steady) (h : script.SplitsInto p)
    (hd : d ∈ p.nodes) (hs : script.slots = before ++ .statement node kind span binds e :: after)
    (hdeclare : (Slot.statement node kind span binds e).declare script.bindings before.length = .ok d)
    {fd : FunctionDef} (hfd : fd ∈ script.functions) (hf : script.Reaches e fd.name) {n : String}
    (hn : fd.exposes n = true) {x : Nat × NodeId} (hx : x ∈ script.bindings.of n) :
    script.bindings.of n = [x] ∧ TransGen p.DependsOn d.id x.2 := by
  refine h.transGen_of_exposes hd hdeclare hfd hf hn (fun hlocal => ?_) hx
  rw [bindings, Bindings.of_ofSlots] at hx
  obtain ⟨-, -, s, hmem, hbinds, -⟩ := Bindings.of_binders hx
  exact hsteady.exposed _ (hs ▸ List.mem_append_right _ List.mem_cons_self) e rfl fd hfd hf n hlocal hn
    s hmem hbinds

/-- A variable with the name of a function stands for the same in a statement that reads it as it
does in functions. -/
theorem resolve_of_shadowed (hsteady : script.Steady)
    (hs : script.slots = before ++ .statement node kind span binds e :: after) {fd : FunctionDef}
    (hfd : fd ∈ script.functions) (hn : fd.name ∈ e.names) {j : NodeId}
    (hj : Table.get? fd.name script.bindings.globals = some j) :
    script.bindings.resolve before.length fd.name = some (j, false) := by
  have hafter := hsteady.shadowed before _ after hs e rfl fd hfd hn
  have hbinders : Bindings.binders fd.name 0 script.slots
      = Bindings.binders fd.name 0 before := by
    rw [hs, Bindings.binders_append, Bindings.binders_eq_nil_iff.2 hafter, List.append_nil]
  rw [bindings, Bindings.get?_globals, hbinders] at hj
  obtain ⟨⟨i, j'⟩, hlast, rfl⟩ := Option.map_eq_some_iff.1 hj
  rw [bindings, hs]
  exact Bindings.resolve_of_before hlast

end Steady

end Lookup

end Script

end ReactiveScript

import ReactiveScript.Proofs.Evaluation.Emissions
import ReactiveScript.Proofs.Graph.GlitchFree
import ReactiveScript.Proofs.Program.Account
import ReactiveScript.Proofs.Program.Locality

/-!
# Where the units of a script come from

The emissions of an interpretation are those of the statements, and the emissions of a node are those
of its expression.  Either way the statement is the anchor, and no two statements stand at the same
position.

* `Script.emissions`, `Script.attributed_emissions` — interpretation.
* `Declaration.emissions`, `Declaration.attributed_emissions` — a node.
* `Script.SplitsInto.attributed_flatMap` — several nodes.
-/

set_option autoImplicit false

namespace ReactiveScript

variable {script : Script} {source file : String} {inputs : InputTable} {limit : Nat}

/-! ## Interpretation -/

theorem Script.collects_setting (file : String) (inputs : InputTable) (limit : Nat) :
    (Script.setting file inputs limit).Collects fun l => l.emitted.toList where
  global _ _ := rfl
  expired _ := rfl
  print _ _ := rfl
  emit _ _ _ := Array.toList_push

namespace Script

/-- The emissions of an interpretation, up to its end or to where it fails. -/
def emissions (script : Script) (file : String) (inputs : InputTable) (limit : Nat) :
    List Emission :=
  (script.run (setting file inputs limit).recording (.fresh []) (.start none, [])).2.2.2

/-- No two statements of a script stand at the same position. -/
theorem nodup_spans_of_ofSource (h : Script.ofSource source = .ok script) :
    (script.body.map Stmt.span).Nodup :=
  (sorted_spans_of_ofSource h).imp Span.Before.ne

/-- What an interpretation emits are the units on its record, and these come from different sites. -/
theorem recording_run (h : Script.ofSource source = .ok script) (file : String)
    (inputs : InputTable) (limit : Nat) :
    Attributed file (script.body.map Stmt.span) (script.emissions file inputs limit) ∧
      (script.run (setting file inputs limit) (.fresh []) (.start none)).2.2.emitted.toList
        = (script.emissions file inputs limit).map Emission.unit := by
  have hstart : (Log.start none).emitted.toList = ([] : List Emission).map Emission.unit := rfl
  obtain ⟨es, hrun, hunits, hattributed⟩ := Stmt.recording_runAll
    (collects_setting file inputs limit) (nodup_spans_of_ofSource h) (.fresh []) hstart
  rw [emissions, run, run, hrun]
  exact ⟨hattributed, hunits⟩

/-- **The emissions of an interpretation come from different sites.** -/
theorem attributed_emissions (h : Script.ofSource source = .ok script) (file : String)
    (inputs : InputTable) (limit : Nat) :
    Attributed file (script.body.map Stmt.span) (script.emissions file inputs limit) :=
  (recording_run h file inputs limit).1

/-- An interpretation that comes to its end returns the units on record. -/
theorem map_unit_emissions (h : Script.ofSource source = .ok script) {units : List OutputUnit}
    (hinterpret : script.interpret file inputs limit = .ok units) :
    (script.emissions file inputs limit).map Emission.unit = units := by
  obtain ⟨m, l, hrunAll, rfl⟩ := exists_runAll_of_interpret hinterpret
  have hunits := (recording_run h file inputs limit).2
  rw [run, hrunAll] at hunits
  exact hunits.symm

end Script

/-! ## Nodes -/

namespace Declaration

variable {p : Program} {d : Declaration} {v : Visit}

theorem collects_setting (p : Program) (limit : Nat) (v : Visit) :
    (setting p limit v).Collects fun f => f.log.emitted.toList where
  global n f := by
    simp only [setting, Footprint.host]
    split
    · rfl
    · rw [Footprint.read]
      dsimp only
      split <;> rfl
  expired _ := rfl
  print _ _ := rfl
  emit _ _ _ := Array.toList_push

/-- The emissions of a node at a visit, whether or not it fails. -/
def emissions (p : Program) (limit : Nat) (d : Declaration) (v : Visit) : List Emission :=
  match d.task with
  | .definition _ => []
  | .expression e =>
    (e.eval (setting p limit v).recording (d.scope v) (machine p d) (.start v, [])).2.2.2

/-- **The emissions of a node come from different sites under its own anchor**, and are the units
that its body emits. -/
theorem attributed_emissions (p : Program) (limit : Nat) (d : Declaration) (v : Visit) :
    Attributed p.file [d.span] (d.emissions p limit v) ∧
      (d.emissions p limit v).map Emission.unit
        = (d.body p limit v).footprint.log.emitted.toList := by
  cases htask : d.task with
  | definition fd =>
    rw [emissions, htask, body_eq_idle htask]
    exact ⟨.nil _ _, rfl⟩
  | expression e =>
    obtain ⟨es, heval, hunits, hattributed⟩ := Expr.recording_eval (collects_setting p limit v)
      (d.scope v) e (m := machine p d) (s := .start v) rfl
    rw [emissions, htask, body_eq htask]
    dsimp only
    rw [heval]
    exact ⟨hattributed, hunits.symm⟩

end Declaration

/-- The emissions of those calls of the nodes of a program that completed. -/
def Program.emissions (p : Program) (limit : Nat) (calls : List Call) : List Emission :=
  (calls.filter Call.completes).flatMap fun c =>
    ((p.declaration? c.visit.node).map fun d => d.emissions p limit c.visit).getD []

namespace Script.SplitsInto

variable {p : Program} {d d' : Declaration}

/-- A node stands where its statement does. -/
theorem exists_statement (h : script.SplitsInto p) (hd : d ∈ p.nodes) :
    ∃ s ∈ script.body, s.span = d.span ∧ s.slot?.map Slot.id = some d.id := by
  obtain ⟨before, slot, after, hslots, hdeclare⟩ := h.exists_slot hd
  have hmem : slot ∈ script.body.filterMap Stmt.slot? := by
    show slot ∈ script.slots
    simp [hslots]
  obtain ⟨s, hs, hslot⟩ := List.mem_filterMap.1 hmem
  refine ⟨s, hs, ?_, by rw [hslot, Slot.id_declare hdeclare]; rfl⟩
  cases s with
  | assign | expr =>
    cases hslot
    cases hdeclare
    rfl
  | define =>
    cases hslot
    obtain ⟨globals, -, hdeclare⟩ := exists_of_bind hdeclare
    cases hdeclare
    rfl
  | _ => cases hslot

/-- Nodes that stand at the same position are the same. -/
theorem eq_of_span_eq (h : script.SplitsInto p) (hspans : (script.body.map Stmt.span).Nodup)
    (hd : d ∈ p.nodes) (hd' : d' ∈ p.nodes) (heq : d.span = d'.span) : d = d' := by
  obtain ⟨s, hs, hspan, hid⟩ := h.exists_statement hd
  obtain ⟨s', hs', hspan', hid'⟩ := h.exists_statement hd'
  obtain rfl : s = s' :=
    List.inj_on_of_nodup_map hspans hs hs' (hspan.trans (heq.trans hspan'.symm))
  exact List.inj_on_of_nodup_map h.nodup_nodes hd hd' (Option.some.inj (hid.symm.trans hid'))

/-- A node is found by its id. -/
theorem declaration?_eq (h : script.SplitsInto p) (hd : d ∈ p.nodes) :
    p.declaration? d.id = some d := by
  have hnodup := h.nodup_nodes
  rw [Program.declaration?, List.find?_eq_some_iff_append]
  refine ⟨beq_self_eq_true d.id, ?_⟩
  obtain ⟨before, after, hnodes⟩ := List.append_of_mem hd
  refine ⟨before, after, hnodes, fun d' hd' => ?_⟩
  rw [hnodes, List.map_append, List.map_cons] at hnodup
  have hne : d'.id ≠ d.id := fun heq => (List.nodup_append.1 hnodup).2.2 _
    (List.mem_map_of_mem hd') _ List.mem_cons_self heq
  simpa using hne

/-- **Emissions of several nodes come from different sites.** -/
theorem attributed_flatMap (h : script.SplitsInto p) (hspans : (script.body.map Stmt.span).Nodup)
    {ds : List Declaration} (hds : ds.Nodup) (hsub : ds ⊆ p.nodes)
    {emissions : Declaration → List Emission}
    (hattributed : ∀ d ∈ ds, Attributed file [d.span] (emissions d)) :
    Attributed file (ds.map Declaration.span) (ds.flatMap emissions) := by
  induction ds with
  | nil => exact .nil _ _
  | cons d ds ih =>
    obtain ⟨hnew, hds⟩ := List.nodup_cons.1 hds
    obtain ⟨hd, hsub⟩ := List.cons_subset.1 hsub
    obtain ⟨hfirst, hrest⟩ := List.forall_mem_cons.1 hattributed
    refine hfirst.append (ih hds hsub hrest) (List.singleton_disjoint.2 fun hmem => ?_)
    obtain ⟨d', hd', heq⟩ := List.mem_map.1 hmem
    rw [h.eq_of_span_eq hspans (hsub hd') hd heq] at hd'
    exact hnew hd'

end Script.SplitsInto

end ReactiveScript

import ReactiveScript.Proofs.Program.Locality

/-!
# What the nodes of a program read

A node that asks for the value of another one by name should depend on it, or else the value may be
one that is still going to change.  The nodes of a program do so with two exceptions
(`Script.Escapes`), both for names that mean something else in the source than when they are looked
up: a variable that a function takes for its own but has not assigned yet, and a variable with the
name of a function.

* `Script.SplitsInto.looksUp` — what the expression of a statement may look up.
* `Program.reads_are_dependencies_or_escape` — every read in every walk.
-/

set_option autoImplicit false

namespace ReactiveScript

open Relation

namespace Script

/-- A name that evaluating an expression may look up although nothing makes its node depend on what
the name stands for. -/
inductive Escapes (script : Script) (e : Expr) (n : String) : Prop
  /-- A function that is called reads the variable, and assigns it, but not on every way to where it
  reads it. -/
  | assigned {fd : FunctionDef} : fd ∈ script.functions → script.Reaches e fd.name →
      n ∈ fd.locals → fd.exposes n = true → Escapes script e n
  /-- The expression reads a variable with the name of a function. -/
  | shadowed {fd : FunctionDef} : fd ∈ script.functions → fd.name = n → n ∈ e.names →
      Escapes script e n

/-- **All that is looked up is what the statement depends on, or escapes.** -/
theorem SplitsInto.looksUp {script : Script} {p : Program} {d : Declaration} {before : List Slot}
    {node : NodeId} {kind : String} {span : Span} {binds : Option String} {e : Expr}
    (h : script.SplitsInto p) (hd : d ∈ p.nodes)
    (hdeclare : (Slot.statement node kind span binds e).declare script.bindings before.length = .ok d) :
    script.LooksUp p before.length e fun j =>
      TransGen p.DependsOn d.id j ∨ ∃ n, p.global? n = some j ∧ script.Escapes e n where
  exposed fd hfd hf n hn j hj := by
    by_cases hlocal : n ∈ fd.locals
    · exact Or.inr ⟨n, hj, .assigned hfd hf hlocal hn⟩
    · obtain ⟨i, hi⟩ := h.mem_of_get?_globals hj
      exact Or.inl (h.transGen_of_exposes hd hdeclare hfd hf hn hlocal hi).2
  kept n hn hkept j hj := by
    obtain ⟨fd, hfd, hname⟩ := h.exists_function_of_kept hkept hj
    exact Or.inr ⟨n, hj, .shadowed hfd hname hn⟩

end Script

namespace Program

/-- **Whatever a node of an accepted script reads by name, in any walk after any others, is what it
depends on through others, or the name escapes.** -/
theorem reads_are_dependencies_or_escape {file source : String} {p : Program} {limit : Nat}
    {retry : Option RetryPolicy} {timeout : Option Period} {g : Graph}
    (hsource : ofSource file source = .ok p) (hinstall : p.install limit (.empty retry timeout) = .ok g)
    (walks : List (Option (List NodeId) × InputTable)) {recompute : Option (List NodeId)}
    {inputs : InputTable} {c : Call}
    (hc : c ∈ (Graph.executeAll walks g).executeCalls recompute inputs) {j : NodeId}
    (hj : j ∈ c.outcome.footprint.reads) :
    TransGen p.DependsOn c.visit.node j ∨
      ∃ script kind span binds e n, Script.ofSource source = .ok script ∧
        .statement c.visit.node kind span binds e ∈ script.slots ∧
        p.global? n = some j ∧ script.Escapes e n := by
  obtain ⟨script, hscript, h, -⟩ := Script.exists_splitsInto_of_ofSource hsource
  have hg : p.Installed limit g := h.installed (Graph.wellFormed_empty retry timeout) rfl hinstall
  -- The call is one of the body that a statement of the script has been given.
  obtain ⟨n', hn', hbody'⟩ := Graph.exists_body_of_mem_visitAllCalls hc
  have hlater := Graph.later_executeAll walks g
  obtain ⟨n, hn⟩ := Graph.mem_ids_iff.1 (hlater.ids_eq ▸ Graph.mem_ids_iff.2 ⟨n', hn'⟩)
  obtain ⟨m, hm, hbody, -⟩ := hlater.node? _ n hn
  obtain rfl := Option.some.inj (hm.symm.trans hn')
  obtain ⟨d, hd, hid, hcore⟩ := hg.exists_declaration hn
  have hcall : c.outcome = d.body p limit c.visit :=
    hbody'.trans (congrFun (hbody.trans (congrArg Node.body hcore :)) _)
  rw [hcall] at hj
  rw [← hid]
  obtain ⟨before, s, after, hs, hdeclare⟩ := h.exists_slot hd
  cases s with
  | definition node span fd =>
    rw [Script.reads_definition hdeclare] at hj
    cases hj
  | statement node kind span binds e =>
    refine ((h.looksUp hd hdeclare).mem_reads h hdeclare hj).imp_right ?_
    rintro ⟨n, hglobal, hescapes⟩
    have hnode : d.id = node := Slot.id_declare hdeclare
    refine ⟨script, kind, span, binds, e, n, hscript, ?_, hglobal, hescapes⟩
    rw [hnode, hs]
    exact List.mem_append_right _ List.mem_cons_self

/-! ## A variable that is assigned too late -/

/-- A function that assigns a variable in a loop that is not entered, and then reads it. -/
def lateText : String :=
  "x = None\ndef f():\n  for i in []:\n    x = True\n  return x\nf()\n"

/-- The function. -/
def lateFunction : FunctionDef where
  name := "f"
  params := []
  body := [
    .loop ⟨3, 3⟩ "i" (.list ⟨3, 12⟩ []) [.assign ⟨4, 5⟩ "x" (.literal ⟨4, 9⟩ (.bool true))],
    .result ⟨5, 3⟩ (some (.name ⟨5, 10⟩ "x"))]
  span := ⟨2, 1⟩

/-- The script that the text spells. -/
def lateScript : Script := ⟨[
  .assign ⟨1, 1⟩ "x" (.literal ⟨1, 5⟩ .null),
  .define ⟨2, 1⟩ "f" [] ⟨2, 1⟩ lateFunction.body,
  .expr ⟨6, 1⟩ (.call ⟨6, 1⟩ "f" [] [])]⟩

/-- Its nodes: the call depends on the definition, and that is all. -/
def lateProgram : Program where
  file := "app.tr"
  nodes := [
    ⟨⟨"atom_00001_001_expr"⟩, "expr", ⟨1, 1⟩, some "x", [], [],
      .expression (.literal ⟨1, 5⟩ .null), false⟩,
    ⟨⟨"atom_00002_001_def"⟩, "def", ⟨2, 1⟩, none, [], [], .definition lateFunction, false⟩,
    ⟨⟨"atom_00006_001_f"⟩, "f", ⟨6, 1⟩, none, [⟨"atom_00002_001_def"⟩], ["f"],
      .expression (.call ⟨6, 1⟩ "f" [] []), false⟩]
  functions := [("f", lateFunction)]
  globals := [("x", ⟨"atom_00001_001_expr"⟩)]

theorem ofSource_lateText : ofSource "app.tr" lateText = .ok lateProgram := by
  have hscript : Script.ofSource lateText = .ok lateScript := by cbv
  have hsplit : ofScript "app.tr" lateScript = .ok lateProgram := by cbv
  rw [ofSource, hscript]
  exact hsplit

/-- What nothing depends on is not depended on through others. -/
theorem not_transGen_of_edges {p : Program} {a j : NodeId} (hj : j ∉ p.edges.map Prod.fst) :
    ¬ TransGen p.DependsOn a j := by
  intro h
  obtain ⟨b, -, hb⟩ := TransGen.tail'_iff.1 h
  exact hj (List.mem_map_of_mem hb)

/-- **A read may escape**: the call reads the variable, which it does not depend on. -/
theorem exists_escaping_read :
    ∃ (p : Program) (g : Graph) (c : Call) (j : NodeId), ofSource "app.tr" lateText = .ok p ∧
      p.install 64 (.empty none none) = .ok g ∧ c ∈ g.executeCalls none [] ∧
      j ∈ c.outcome.footprint.reads ∧ ¬ TransGen p.DependsOn c.visit.node j ∧
      ∃ script e n, Script.ofSource lateText = .ok script ∧ p.global? n = some j ∧
        script.Escapes e n := by
  have hruns : (lateProgram.install 64 (.empty none none)).toOption.any (fun g =>
      (g.executeCalls none []).any fun c =>
        decide (⟨"atom_00001_001_expr"⟩ ∈ c.outcome.footprint.reads)) = true := by decide +kernel
  cases hinstall : lateProgram.install 64 (.empty none none) with
  | error e =>
    rw [hinstall] at hruns
    cases hruns
  | ok g =>
    rw [hinstall] at hruns
    obtain ⟨c, hc, hread⟩ := List.any_eq_true.1 hruns
    have hread := of_decide_eq_true hread
    have hnot : ¬ TransGen lateProgram.DependsOn c.visit.node ⟨"atom_00001_001_expr"⟩ :=
      not_transGen_of_edges (by decide)
    obtain ⟨script, _, _, _, e, n, hscript, -, hglobal, hescapes⟩ :=
      (reads_are_dependencies_or_escape ofSource_lateText hinstall [] hc hread).resolve_left hnot
    exact ⟨lateProgram, g, c, _, ofSource_lateText, hinstall, hc, hread, hnot, script, e, n,
      hscript, hglobal, hescapes⟩

end Program

end ReactiveScript

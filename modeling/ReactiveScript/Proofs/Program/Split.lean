import Mathlib.Data.List.Nodup
import ReactiveScript.Proofs.Checked
import ReactiveScript.Proofs.Grammar.Statement
import ReactiveScript.Proofs.Identity
import ReactiveScript.Proofs.Program.Bindings

/-!
# The nodes of a split script

What `Program.ofScript` makes of a script, one statement at a time.

* `Script.SplitsInto` — a script and the nodes it is split into.
* `Script.SplitsInto.declared`, `Script.SplitsInto.exists_slot` — every statement has its node, and
  there are no other nodes.
* `Script.exists_splitsInto_of_ofSource` — a text that is split spells such a script.
* `Script.Renames`, `Script.Stands` — a statement depends on what the variables and functions that it
  mentions stand for, and so does a function.
-/

set_option autoImplicit false

namespace ReactiveScript

namespace Stmt

/-- The slot of a statement, if it needs one. -/
def slot? : Stmt → Option Slot
  | .assign span target e => some (.ofExpr span (some target) e)
  | .expr span e => some (.ofExpr span none e)
  | .define span name params defSpan body =>
    some (.definition (.ofStatement "def" span) span ⟨name, params, body, defSpan⟩)
  | _ => none

/-- Whether a statement can be a node, or needs none. -/
def isFlat : Stmt → Bool
  | .choose .. | .loop .. | .result .. => false
  | _ => true

theorem id_slot? {s : Stmt} {slot : Slot} (h : s.slot? = some slot) :
    ∃ kind, slot.id = .ofStatement kind s.span := by
  cases s with
  | assign | expr | define =>
    cases h
    exact ⟨_, rfl⟩
  | _ => cases h

theorem filterMap_defines? (ss : List Stmt) :
    (ss.filterMap slot?).filterMap Slot.defines? = ss.filterMap definition? := by
  rw [List.filterMap_filterMap]
  refine List.filterMap_congr fun s _ => ?_
  cases s <;> rfl

end Stmt

namespace Program

/-- A node of a program has another one among its dependencies. -/
def DependsOn (p : Program) (a b : NodeId) : Prop := (b, a) ∈ p.edges

theorem dependsOn_of_mem {p : Program} {d : Declaration} (hd : d ∈ p.nodes) {j : NodeId}
    (hj : j ∈ d.dependencies) : p.DependsOn d.id j :=
  List.mem_flatMap.2 ⟨d, hd, List.mem_map_of_mem hj⟩

end Program

namespace Script

/-- The slots of a script. -/
def slots (script : Script) : List Slot := script.body.filterMap Stmt.slot?

/-- The functions of a script. -/
def functions (script : Script) : List FunctionDef := script.body.filterMap Stmt.definition?

/-- The bindings of a script. -/
def bindings (script : Script) : Bindings := .ofSlots script.slots

theorem filterMap_defines? (script : Script) :
    script.slots.filterMap Slot.defines? = script.functions := Stmt.filterMap_defines? script.body

/-- A script and the nodes that it is split into. -/
structure SplitsInto (script : Script) (p : Program) : Prop where
  /-- Every statement can be a node. -/
  flat : ∀ s ∈ script.body, s.isFlat = true
  /-- No function is defined twice. -/
  functions_nodup : (script.functions.map FunctionDef.name).Nodup
  /-- No two statements have the same id. -/
  ids_nodup : (script.slots.map Slot.id).Nodup
  /-- Functions define no functions. -/
  definesNothing : ∀ d ∈ script.functions, Stmt.blockDefinesNothing d.body = true
  /-- The nodes. -/
  nodes : Slot.declareAll script.bindings 0 script.slots = .ok p.nodes
  /-- The functions. -/
  functions_eq : p.functions = Table.ofList (script.functions.map fun d => (d.name, d))
  /-- What variables stand for in functions. -/
  globals_eq : p.globals = script.bindings.globals

end Script

namespace Slot

/-! ## Splitting -/

theorem ofStmt_cases {s : Stmt} {known : List String} {slot : Option Slot}
    (h : ofStmt known s = .ok slot) :
    slot = s.slot? ∧ s.isFlat = true ∧ ∀ d, s.definition? = some d → d.name ∉ known := by
  cases s with
  | define span name params defSpan body =>
    rw [ofStmt] at h
    split at h
    · cases h
    · rename_i hname
      cases h
      refine ⟨rfl, rfl, fun d hd => ?_⟩
      cases hd
      exact hname
  | assign | expr | pass =>
    cases h
    exact ⟨rfl, rfl, fun d hd => by cases hd⟩
  | choose | loop | result => cases h

theorem ofStmts_cons (known : List String) (s : Stmt) (ss : List Stmt) :
    ofStmts known (s :: ss) =
      ofStmt known s >>= fun slot =>
        ofStmts ((s.definition?.map FunctionDef.name).toList ++ known) ss >>= fun slots =>
          .ok (slot.toList ++ slots) := by
  cases s <;> rfl

theorem ofStmts_cases {stmts : List Stmt} {known : List String} {slots : List Slot}
    (h : ofStmts known stmts = .ok slots) :
    slots = stmts.filterMap Stmt.slot? ∧ (∀ s ∈ stmts, s.isFlat = true) ∧
      ((stmts.filterMap Stmt.definition?).map FunctionDef.name).Nodup ∧
      ∀ d ∈ stmts.filterMap Stmt.definition?, d.name ∉ known := by
  induction stmts generalizing known slots with
  | nil =>
    cases h
    exact ⟨rfl, List.forall_mem_nil _, List.nodup_nil, List.forall_mem_nil _⟩
  | cons s stmts ih =>
    rw [ofStmts_cons] at h
    obtain ⟨slot, hslot, h⟩ := exists_of_bind h
    obtain ⟨rest, hrest, h⟩ := exists_of_bind h
    cases h
    obtain ⟨rfl, hflat, hname⟩ := ofStmt_cases hslot
    obtain ⟨rfl, hflats, hnodup, hnames⟩ := ih hrest
    refine ⟨?_, List.forall_mem_cons.2 ⟨hflat, hflats⟩, ?_⟩
    · rw [List.filterMap_cons]
      cases s.slot? <;> rfl
    · cases hd : s.definition? with
      | none =>
        rw [hd] at hnames
        rw [List.filterMap_cons_none hd]
        exact ⟨hnodup, hnames⟩
      | some d =>
        rw [hd] at hnames
        rw [List.filterMap_cons_some hd]
        refine ⟨List.nodup_cons.2 ⟨fun hmem => ?_, hnodup⟩, List.forall_mem_cons.2
          ⟨hname d hd, fun d' hd' hmem => hnames d' hd' (List.mem_cons_of_mem _ hmem)⟩⟩
        obtain ⟨d', hd', heq⟩ := List.mem_map.1 hmem
        exact hnames d' hd' (heq ▸ List.mem_cons_self)

/-- A slot and what is declared for it have the same id and stand at the same place. -/
theorem place_declare {b : Bindings} {position : Nat} {s : Slot} {d : Declaration}
    (h : s.declare b position = .ok d) : d.id = s.id ∧ d.span = s.span := by
  cases s with
  | statement id kind span binds e =>
    cases h
    exact ⟨rfl, rfl⟩
  | definition id span fd =>
    rw [declare, declareFunction] at h
    obtain ⟨globals, -, h⟩ := exists_of_bind h
    cases h
    exact ⟨rfl, rfl⟩

theorem id_declare {b : Bindings} {position : Nat} {s : Slot} {d : Declaration}
    (h : s.declare b position = .ok d) : d.id = s.id := (place_declare h).1

theorem span_declare {b : Bindings} {position : Nat} {s : Slot} {d : Declaration}
    (h : s.declare b position = .ok d) : d.span = s.span := (place_declare h).2

/-- What slots have in common with what is declared for them, they have in order. -/
theorem map_declareAll {α : Type} {f : Declaration → α} {g : Slot → α} {b : Bindings}
    (hfg : ∀ {position : Nat} {s : Slot} {d : Declaration}, s.declare b position = .ok d → f d = g s)
    {ss : List Slot} {position : Nat} {ds : List Declaration}
    (h : declareAll b position ss = .ok ds) : ds.map f = ss.map g := by
  induction ss generalizing position ds with
  | nil =>
    cases h
    rfl
  | cons s ss ih =>
    rw [declareAll] at h
    obtain ⟨d, hd, h⟩ := exists_of_bind h
    obtain ⟨rest, hrest, h⟩ := exists_of_bind h
    cases h
    rw [List.map_cons, List.map_cons, hfg hd, ih hrest]

theorem declareAll_cases {b : Bindings} {ss : List Slot} {position : Nat} {ds : List Declaration}
    (h : declareAll b position ss = .ok ds) :
    ds.map Declaration.id = ss.map Slot.id ∧
      (∀ before s after, ss = before ++ s :: after →
        ∃ d ∈ ds, s.declare b (position + before.length) = .ok d) ∧
      ∀ d ∈ ds, ∃ before s after, ss = before ++ s :: after ∧
        s.declare b (position + before.length) = .ok d := by
  refine ⟨map_declareAll id_declare h, ?_⟩
  induction ss generalizing position ds with
  | nil =>
    cases h
    refine ⟨fun before s after heq => ?_, List.forall_mem_nil _⟩
    cases before <;> cases heq
  | cons s ss ih =>
    rw [declareAll] at h
    obtain ⟨d, hd, h⟩ := exists_of_bind h
    obtain ⟨rest, hrest, h⟩ := exists_of_bind h
    cases h
    obtain ⟨hdeclared, hslots⟩ := ih hrest
    refine ⟨fun before s' after heq => ?_, ?_⟩
    · rcases before with _ | ⟨s'', before⟩
      · cases heq
        exact ⟨d, List.mem_cons_self, hd⟩
      · cases heq
        obtain ⟨d', hd', hdeclare⟩ := hdeclared before s' after rfl
        refine ⟨d', List.mem_cons_of_mem _ hd', ?_⟩
        rwa [List.length_cons, ← Nat.add_assoc, Nat.add_right_comm]
    · refine List.forall_mem_cons.2 ⟨⟨[], s, ss, rfl, hd⟩, fun d' hd' => ?_⟩
      obtain ⟨before, s', after, rfl, hdeclare⟩ := hslots d' hd'
      refine ⟨s :: before, s', after, rfl, ?_⟩
      rwa [List.length_cons, ← Nat.add_assoc, Nat.add_right_comm]

theorem globalNodes_cases {b : Bindings} {function : String} {names : List String}
    {pairs : List (NodeId × String)} (h : globalNodes b function names = .ok pairs) :
    (∀ n ∈ names, ∀ x ∈ b.of n, b.of n = [x] ∧ (x.2, n) ∈ pairs) ∧
      ∀ j n, (j, n) ∈ pairs → ∃ i, (i, j) ∈ b.of n := by
  induction names generalizing pairs with
  | nil =>
    cases h
    exact ⟨List.forall_mem_nil _, fun j n hmem => by cases hmem⟩
  | cons m names ih =>
    rw [globalNodes] at h
    split at h
    · rename_i hof
      obtain ⟨hnames, hpairs⟩ := ih h
      refine ⟨List.forall_mem_cons.2 ⟨fun x hx => ?_, hnames⟩, hpairs⟩
      rw [hof] at hx
      cases hx
    · rename_i i id hof
      obtain ⟨pairs, hrest, rfl⟩ := exists_of_map h
      obtain ⟨hnames, hpairs⟩ := ih hrest
      refine ⟨List.forall_mem_cons.2 ⟨fun x hx => ?_, fun n hn x hx => ?_⟩, fun j n hmem => ?_⟩
      · rw [hof] at hx ⊢
        cases List.mem_singleton.1 hx
        exact ⟨rfl, List.mem_cons_self⟩
      · obtain ⟨hof, hmem⟩ := hnames n hn x hx
        exact ⟨hof, List.mem_cons_of_mem _ hmem⟩
      · rcases List.mem_cons.1 hmem with heq | hmem
        · cases heq
          exact ⟨i, by rw [hof]; exact List.mem_cons_self⟩
        · exact hpairs j n hmem
    · cases h

end Slot

namespace Script

/-- The statements of a script that has been read have different ids. -/
theorem ids_nodup_of_ofSource {source : String} {script : Script}
    (h : Script.ofSource source = .ok script) : (script.slots.map Slot.id).Nodup := by
  have hspans := List.pairwise_map.1 (sorted_spans_of_ofSource h)
  rw [slots, List.Nodup, List.pairwise_map, List.pairwise_filterMap]
  refine hspans.imp fun {s t} hbefore a ha b hb heq => hbefore.ne ?_
  obtain ⟨kind, ha⟩ := Stmt.id_slot? ha
  obtain ⟨kind', hb⟩ := Stmt.id_slot? hb
  exact NodeId.ofStatement_inj (ha.symm.trans (heq.trans hb))

/-- Every statement is at a position that fits the widths of ids. -/
def FitsIds (script : Script) : Prop :=
  ∀ s ∈ script.body, s.span.line < 10 ^ 5 ∧ s.span.col < 10 ^ 3

/-- A script that can be split is split into the nodes of its statements. -/
theorem splitsInto_of_ofScript {file : String} {script : Script} {p : Program}
    (h : Program.ofScript file script = .ok p) (hids : (script.slots.map Slot.id).Nodup)
    (hplain : ∀ d ∈ script.functions, Stmt.blockDefinesNothing d.body = true) :
    script.SplitsInto p ∧ p.file = file := by
  rw [Program.ofScript] at h
  obtain ⟨slots, hslots, h⟩ := exists_of_bind h
  obtain ⟨nodes, hnodes, h⟩ := exists_of_bind h
  obtain ⟨rfl, hflat, hnodup, -⟩ := Slot.ofStmts_cases hslots
  split at h
  · cases h
  · cases h
    refine ⟨⟨hflat, hnodup, hids, hplain, hnodes, ?_, rfl⟩, rfl⟩
    have hfunctions := script.filterMap_defines?
    rw [slots] at hfunctions
    rw [← hfunctions, List.map_filterMap]

/-- **A text that can be split spells a script that is split into the nodes of its statements.** -/
theorem exists_splitsInto_of_ofSource {file source : String} {p : Program}
    (h : Program.ofSource file source = .ok p) :
    ∃ script, Script.ofSource source = .ok script ∧ script.SplitsInto p ∧ p.file = file := by
  rw [Program.ofSource] at h
  split at h
  · cases h
  · rename_i script hscript
    exact ⟨script, hscript, splitsInto_of_ofScript h (ids_nodup_of_ofSource hscript)
      fun d hd => definesNothing_of_ofSource hscript hd⟩

namespace SplitsInto

variable {script : Script} {p : Program} {s : Slot} {d : Declaration} {before after : List Slot}

/-! ## Statements and nodes -/

theorem ids_eq (h : script.SplitsInto p) : p.nodes.map Declaration.id = script.slots.map Slot.id :=
  (Slot.declareAll_cases h.nodes).1

/-- Nodes have different ids. -/
theorem nodup_nodes (h : script.SplitsInto p) : (p.nodes.map Declaration.id).Nodup := by
  rw [h.ids_eq]
  exact h.ids_nodup

/-- Every statement has its node. -/
theorem declared (h : script.SplitsInto p) (hs : script.slots = before ++ s :: after) :
    ∃ d ∈ p.nodes, s.declare script.bindings before.length = .ok d := by
  obtain ⟨d, hd, hdeclare⟩ := (Slot.declareAll_cases h.nodes).2.1 before s after hs
  exact ⟨d, hd, by rwa [Nat.zero_add] at hdeclare⟩

/-- There are no other nodes. -/
theorem exists_slot (h : script.SplitsInto p) (hd : d ∈ p.nodes) :
    ∃ before s after, script.slots = before ++ s :: after ∧
      s.declare script.bindings before.length = .ok d := by
  obtain ⟨before, s, after, hs, hdeclare⟩ := (Slot.declareAll_cases h.nodes).2.2 d hd
  exact ⟨before, s, after, hs, by rwa [Nat.zero_add] at hdeclare⟩

theorem eq_of_id_eq (h : script.SplitsInto p) {s' : Slot} (hs : s ∈ script.slots)
    (hs' : s' ∈ script.slots) (heq : s.id = s'.id) : s = s' :=
  List.inj_on_of_nodup_map h.ids_nodup hs hs' heq

/-! ## Functions -/

theorem get?_functions (h : script.SplitsInto p) {f : String} {fd : FunctionDef} :
    Table.get? f p.functions = some fd ↔ fd ∈ script.functions ∧ fd.name = f := by
  rw [h.functions_eq]
  constructor
  · intro hget
    obtain ⟨fd', hfd', heq⟩ := List.mem_map.1 (Table.mem_of_get?_ofList hget)
    cases heq
    exact ⟨hfd', rfl⟩
  · rintro ⟨hfd, rfl⟩
    refine Table.get?_ofList_of_mem ?_ (List.mem_map_of_mem hfd)
    rw [Table.keys, List.map_map]
    exact h.functions_nodup

/-- A function stands for the node of its definition. -/
theorem get?_nodes (h : script.SplitsInto p) {f : String} {id : NodeId} :
    Table.get? f script.bindings.functions = some id ↔
      ∃ s ∈ script.slots, ∃ fd, s.defines? = some fd ∧ fd.name = f ∧ s.id = id := by
  rw [bindings, Bindings.functions_ofSlots]
  constructor
  · intro hget
    obtain ⟨s, hs, heq⟩ := List.mem_filterMap.1 (Table.mem_of_get?_ofList hget)
    obtain ⟨fd, hfd, heq⟩ := Option.map_eq_some_iff.1 heq
    cases heq
    exact ⟨s, hs, fd, hfd, rfl, rfl⟩
  · rintro ⟨s, hs, fd, hfd, rfl, rfl⟩
    refine Table.get?_ofList_of_mem ?_ (List.mem_filterMap.2 ⟨s, hs, by rw [hfd]; rfl⟩)
    have hkeys : Table.keys (script.slots.filterMap fun s => s.defines?.map fun d => (d.name, s.id))
        = script.functions.map FunctionDef.name := by
      rw [← script.filterMap_defines?, Table.keys, List.map_filterMap, List.map_filterMap]
      refine List.filterMap_congr fun s _ => ?_
      cases s.defines? <;> rfl
    rw [hkeys]
    exact h.functions_nodup

theorem has_nodes (h : script.SplitsInto p) {f : String} :
    Table.has f script.bindings.functions = true ↔ ∃ fd ∈ script.functions, fd.name = f := by
  rw [Table.has, Option.isSome_iff_exists]
  simp only [h.get?_nodes, ← script.filterMap_defines?, List.mem_filterMap]
  constructor
  · rintro ⟨id, s, hs, fd, hfd, hname, -⟩
    exact ⟨fd, ⟨s, hs, hfd⟩, hname⟩
  · rintro ⟨fd, ⟨s, hs, hfd⟩, hname⟩
    exact ⟨s.id, s, hs, fd, hfd, hname, rfl⟩

end SplitsInto

/-! ## What a statement depends on -/

section Statement

variable {script : Script} {p : Program} {position : Nat} {e : Expr}

/-- The nodes that a statement depends on, each with a name it stands for. -/
def pairs (script : Script) (position : Nat) (e : Expr) : List (NodeId × String) :=
  ((e.references.names.filterMap fun name =>
    (script.bindings.resolve position name).map fun (dep, forward) => (dep, name, forward)).map
      fun (dep, name, _) => (dep, name)) ++ script.bindings.calledNodes e.references.calls

theorem mem_pairs {j : NodeId} {n : String} :
    (j, n) ∈ script.pairs position e ↔
      (n ∈ e.names ∧ ∃ forward, script.bindings.resolve position n = some (j, forward)) ∨
        (n ∈ e.calls ∧ Table.get? n script.bindings.functions = some j) := by
  rw [pairs, List.mem_append, Bindings.mem_calledNodes, Expr.references]
  simp only [mem_sortedTexts]
  refine or_congr_left ?_
  simp only [List.mem_map, List.mem_filterMap, mem_sortedTexts, Option.map_eq_some_iff,
    Prod.exists, Prod.mk.injEq]
  constructor
  · rintro ⟨j', n', forward, ⟨m, hm, j'', forward', hresolve, rfl, rfl, rfl⟩, rfl, rfl⟩
    exact ⟨hm, forward', hresolve⟩
  · rintro ⟨hn, forward, hresolve⟩
    exact ⟨j, n, forward, ⟨n, hn, j, forward, hresolve, rfl, rfl, rfl⟩, rfl, rfl⟩

/-- A node stands for one name only. -/
theorem SplitsInto.name_eq_of_mem_pairs (h : script.SplitsInto p) {j : NodeId} {n m : String}
    (hn : (j, n) ∈ script.pairs position e) (hm : (j, m) ∈ script.pairs position e) : m = n := by
  have hslot : ∀ k, (j, k) ∈ script.pairs position e → ∃ s ∈ script.slots, s.id = j ∧
      (s.binds? = some k ∨ s.defines?.map FunctionDef.name = some k) := by
    intro k hk
    rcases mem_pairs.1 hk with ⟨-, forward, hresolve⟩ | ⟨-, hget⟩
    · obtain ⟨s, hs, hbinds, hid⟩ := Bindings.exists_of_resolve hresolve
      exact ⟨s, hs, hid, Or.inl hbinds⟩
    · obtain ⟨s, hs, fd, hfd, hname, hid⟩ := h.get?_nodes.1 hget
      exact ⟨s, hs, hid, Or.inr (by rw [hfd, ← hname]; rfl)⟩
  obtain ⟨s, hs, hid, hn⟩ := hslot n hn
  obtain ⟨s', hs', hid', hm⟩ := hslot m hm
  obtain rfl := h.eq_of_id_eq hs hs' (hid.trans hid'.symm)
  rcases hn with hn | hn <;> rcases hm with hm | hm
  · exact Option.some.inj (hm.symm.trans hn)
  · rw [Slot.defines?_eq_none_of_binds? hn] at hm
    cases hm
  · rw [Slot.defines?_eq_none_of_binds? hm] at hn
    cases hn
  · exact Option.some.inj (hm.symm.trans hn)

/-- What a node is to its statement: it runs the expression with every variable that is no function
replaced by the parameter at the place of the node that the variable stands for. -/
structure Renames (script : Script) (position : Nat) (e : Expr) (d : Declaration)
    (rename : String → String) : Prop where
  /-- What the node runs. -/
  task_eq : d.task = .expression (e.mapWith id rename)
  /-- What it depends on. -/
  mem_dependencies : ∀ j, j ∈ d.dependencies ↔ ∃ n, (j, n) ∈ script.pairs position e
  /-- Variables that are parameters. -/
  param : ∀ n ∈ e.names, ∀ j forward, script.bindings.resolve position n = some (j, forward) →
    Table.has n script.bindings.functions = false →
    ∃ i : Nat, rename n = paramName i ∧ d.dependencies[i]? = some j
  /-- Variables that are not. -/
  same : ∀ n ∈ e.names, Table.has n script.bindings.functions = true ∨
    script.bindings.resolve position n = none → rename n = n

theorem SplitsInto.renames (h : script.SplitsInto p) {node : NodeId} {kind : String} {span : Span}
    {binds : Option String} {d : Declaration}
    (hd : (Slot.statement node kind span binds e).declare script.bindings position = .ok d) :
    ∃ rename, script.Renames position e d rename := by
  cases hd
  refine ⟨Expr.renamed ((Dependencies.ofPairs (script.pairs position e)).renames script.bindings),
    rfl, fun j => Dependencies.mem_nodes, fun n hn j forward hresolve hno => ?_,
    fun n hn hsame => ?_⟩
  · have hmem : (j, n) ∈ script.pairs position e := mem_pairs.2 (Or.inl ⟨hn, forward, hresolve⟩)
    refine Dependencies.renamed_eq script.bindings hmem (fun m hm => h.name_eq_of_mem_pairs hmem hm)
      (fun j' hj' => ?_) hno
    rcases mem_pairs.1 hj' with ⟨-, forward', hresolve'⟩ | ⟨-, hget⟩
    · rw [hresolve] at hresolve'
      cases hresolve'
      rfl
    · rw [Table.has, hget] at hno
      cases hno
  · refine Dependencies.renamed_eq_self script.bindings ?_
    by_cases hfun : Table.has n script.bindings.functions = true
    · exact Or.inl hfun
    · refine Or.inr fun j hj => ?_
      rcases mem_pairs.1 hj with ⟨-, forward, hresolve⟩ | ⟨-, hget⟩
      · rw [hsame.resolve_left hfun] at hresolve
        cases hresolve
      · exact hfun (by rw [Table.has, hget]; rfl)

end Statement

/-! ## What a function depends on -/

section Function

variable {script : Script} {p : Program} {position : Nat} {fd : FunctionDef}

/-- What a node is to the definition of its function. -/
structure Stands (script : Script) (fd : FunctionDef) (d : Declaration) : Prop where
  /-- What the node runs. -/
  task_eq : d.task = .definition fd
  /-- It depends on the functions that are called. -/
  mem_of_call : ∀ f j, .inr f ∈ Stmt.blockMentions fd.body →
    Table.get? f script.bindings.functions = some j → j ∈ d.dependencies
  /-- It depends on the variables that are read, which are assigned once. -/
  mem_of_name : ∀ n x, .inl n ∈ Stmt.blockMentions fd.body → n ∉ fd.locals →
    x ∈ script.bindings.of n → script.bindings.of n = [x] ∧ x.2 ∈ d.dependencies
  /-- It depends on nothing else. -/
  exists_of_mem : ∀ j ∈ d.dependencies, (∃ f, Table.get? f script.bindings.functions = some j) ∨
    ∃ n i, (i, j) ∈ script.bindings.of n

theorem stands {node : NodeId} {span : Span} {d : Declaration}
    (hd : (Slot.definition node span fd).declare script.bindings position = .ok d) :
    script.Stands fd d := by
  rw [Slot.declare, Slot.declareFunction] at hd
  obtain ⟨pairs, hpairs, hd⟩ := exists_of_bind hd
  cases hd
  obtain ⟨hnames, hof⟩ := Slot.globalNodes_cases hpairs
  refine ⟨rfl, fun f j hf hget => ?_, fun n x hn hlocal hx => ?_, fun j hj => ?_⟩
  · refine Dependencies.mem_nodes.2 ⟨f, List.mem_append_left _ (Bindings.mem_calledNodes.2 ⟨?_, hget⟩)⟩
    rw [FunctionDef.references, mem_sortedTexts]
    exact List.mem_filterMap.2 ⟨_, hf, rfl⟩
  · have hread : n ∈ fd.references.names := by
      rw [FunctionDef.references, mem_sortedTexts, List.mem_filter, List.contains_eq_mem,
        decide_eq_false hlocal]
      exact ⟨List.mem_filterMap.2 ⟨_, hn, rfl⟩, rfl⟩
    obtain ⟨hof, hmem⟩ := hnames n hread x hx
    exact ⟨hof, Dependencies.mem_nodes.2 ⟨n, List.mem_append_right _ hmem⟩⟩
  · obtain ⟨n, hmem⟩ := Dependencies.mem_nodes.1 hj
    rcases List.mem_append.1 hmem with hmem | hmem
    · exact Or.inl ⟨n, (Bindings.mem_calledNodes.1 hmem).2⟩
    · obtain ⟨i, hi⟩ := hof j n hmem
      exact Or.inr ⟨n, i, hi⟩

end Function

/-- Everything that a node depends on is a node. -/
theorem SplitsInto.mem_ids_of_mem_dependencies {script : Script} {p : Program}
    (h : script.SplitsInto p) {d : Declaration} (hd : d ∈ p.nodes) {j : NodeId}
    (hj : j ∈ d.dependencies) : j ∈ p.nodes.map Declaration.id := by
  obtain ⟨before, s, after, hs, hdeclare⟩ := h.exists_slot hd
  rw [h.ids_eq]
  have hfunction : ∀ f, Table.get? f script.bindings.functions = some j →
      j ∈ script.slots.map Slot.id := by
    intro f hget
    obtain ⟨s, hs, -, -, -, hid⟩ := h.get?_nodes.1 hget
    exact List.mem_map.2 ⟨s, hs, hid⟩
  cases s with
  | statement node kind span binds e =>
    obtain ⟨rename, hrenames⟩ := h.renames hdeclare
    obtain ⟨n, hmem⟩ := (hrenames.mem_dependencies j).1 hj
    rcases mem_pairs.1 hmem with ⟨-, forward, hresolve⟩ | ⟨-, hget⟩
    · obtain ⟨s, hs, -, hid⟩ := Bindings.exists_of_resolve hresolve
      exact List.mem_map.2 ⟨s, hs, hid⟩
    · exact hfunction n hget
  | definition node span fd =>
    rcases (stands hdeclare).exists_of_mem j hj with ⟨f, hget⟩ | ⟨n, i, hi⟩
    · exact hfunction f hget
    · rw [bindings, Bindings.of_ofSlots] at hi
      obtain ⟨-, -, s, hs, -, hid⟩ := Bindings.of_binders hi
      exact List.mem_map.2 ⟨s, hs, hid⟩

/-- The dependencies of a node are a set. -/
theorem SplitsInto.sorted_dependencies {script : Script} {p : Program} (h : script.SplitsInto p)
    {d : Declaration} (hd : d ∈ p.nodes) : NodeId.Sorted d.dependencies := by
  obtain ⟨before, s, after, hs, hdeclare⟩ := h.exists_slot hd
  cases s with
  | statement node kind span binds e =>
    cases hdeclare
    exact Dependencies.sorted_nodes _
  | definition node span fd =>
    rw [Slot.declare, Slot.declareFunction] at hdeclare
    obtain ⟨pairs, hpairs, hdeclare⟩ := exists_of_bind hdeclare
    cases hdeclare
    exact Dependencies.sorted_nodes _

end Script

end ReactiveScript

import ReactiveScript.Proofs.Program.Interpretation

/-!
# Variables and parameters

The node of a statement evaluates the expression with parameters in the place of variables.  Were
this hygienic, the node would do what the expression does at module level, where exactly the
variables that have a parameter are there, with the arguments as their values.

It does so unless the expression reads a variable that strays (`Declaration.Strays`).  A variable
that is assigned nowhere is left alone, and if it happens to be named like a parameter it is taken
for one.  A variable with the name of a function is left alone as well, so that the node looks up
what was assigned last and not what it depends on.

* `Declaration.seen` — what reading a variable of a statement gives in its node.
* `Declaration.RunsAs` — a node does what an expression does at module level with some variables.
* `Script.SplitsInto.runsAs_of_seen` — with what is seen for the variables that is so for every node
  whose statement calls no function of the script.
* `Program.rewriting_is_hygienic_but_for_strays` — and with the arguments if no variable strays.
-/

set_option autoImplicit false

namespace ReactiveScript

open Eval

namespace Declaration

/-! ## Reading a variable -/

/-- The parameter with a name. -/
def parameterNamed? (d : Declaration) (n : String) : Option Nat :=
  (List.range d.dependencies.length).find? fun i => decide (paramName i = n)

/-- The parameter that a variable of a statement is read from in its node: the one that takes its
place, or one that has its name. -/
def parameter? (p : Program) (d : Declaration) (n : String) : Option Nat :=
  if Table.has n p.functions then d.parameterNamed? n
  else (d.arguments.idxOf? n).or (d.parameterNamed? n)

/-- What reading a variable of a statement gives in its node. -/
def seen (p : Program) (d : Declaration) (v : Visit) (n : String) : Option Value :=
  match d.parameter? p n with
  | some i => some (v.arg i)
  | none => (p.global? n).bind (Table.get? · v.values)

/-- A variable that has a parameter but is not read from it, or that has none but is read from
one. -/
inductive Strays (p : Program) (d : Declaration) (n : String) : Prop
  /-- It stands for nothing, but a parameter has its name. -/
  | captured {i : Nat} : n ∉ d.arguments → i < d.dependencies.length → n = paramName i →
      Strays p d n
  /-- It stands for a dependency, but a function has its name. -/
  | shared : n ∈ d.arguments → Table.has n p.functions = true → Strays p d n

/-- At a visit, the node ends as an expression does at module level with some variables and no
functions, and emits and prints the same. -/
def RunsAs (p : Program) (limit : Nat) (d : Declaration) (e : Expr) (v : Visit)
    (globals : Table String Value) : Prop :=
  let evaluated := e.eval (Script.setting p.file v.inputs limit) .module
    { (Machine.fresh []).anchored d.span with globals } (.start v.deadline)
  (d.body p limit v).ending = outcome evaluated.1 ∧ (d.body p limit v).footprint.log = evaluated.2.2

variable {p : Program} {limit : Nat} {d : Declaration} {v : Visit} {globals : Table String Value}
  {n : String} {i : Nat}

theorem of_parameterNamed?_eq_some (h : d.parameterNamed? n = some i) :
    i < d.dependencies.length ∧ n = paramName i := by
  refine ⟨List.mem_range.1 (List.mem_of_find?_eq_some h), ?_⟩
  exact (of_decide_eq_true (List.find?_some h :)).symm

theorem parameterNamed?_eq_none :
    d.parameterNamed? n = none ↔ ∀ i < d.dependencies.length, n ≠ paramName i := by
  rw [parameterNamed?, List.find?_eq_none]
  simp only [List.mem_range, decide_eq_true_eq]
  exact forall₂_congr fun i _ => not_congr eq_comm

/-- An argument is found at its place. -/
theorem idxOf?_arguments (hnodup : d.arguments.Nodup) (hi : d.arguments[i]? = some n) :
    d.arguments.idxOf? n = some i := by
  obtain ⟨hlt, hin⟩ := List.getElem?_eq_some_iff.1 hi
  refine List.idxOf?_eq_some_iff.2 ⟨hlt, hin, fun i' hi' heq => ?_⟩
  have hii' := hnodup.getElem_inj_iff.1 (heq.trans hin.symm)
  omega

/-- How the node reads a variable of its statement, under the name that it has there. -/
inductive ReadsAs (p : Program) (d : Declaration) (n m : String) : Prop
  /-- From a parameter. -/
  | parameter {i : Nat} {j : NodeId} : d.parameter? p n = some i → m = paramName i →
      d.dependencies[i]? = some j → ReadsAs p d n m
  /-- By the name that it has in the source. -/
  | outside : d.parameter? p n = none → m = n → (∀ i < d.dependencies.length, n ≠ paramName i) →
      ReadsAs p d n m

theorem readsAs_of_kept (h : d.parameter? p n = d.parameterNamed? n) : ReadsAs p d n n := by
  cases hnamed : d.parameterNamed? n with
  | none => exact .outside (h.trans hnamed) rfl (parameterNamed?_eq_none.1 hnamed)
  | some i =>
    obtain ⟨hi, hni⟩ := of_parameterNamed?_eq_some hnamed
    exact .parameter (h.trans hnamed) hni (List.getElem?_eq_getElem hi)

/-! ## An expression and its node -/

/-- The evaluation of an expression at module level, and a visit of its node. -/
def evaluator (p : Program) (limit : Nat) (v : Visit) (globals : Table String Value) :
    Coupling Log Footprint where
  left := Script.setting p.file v.inputs limit
  right := setting p limit v
  leftFunctions := []
  rightFunctions := p.functions
  leftGlobals := globals
  rightGlobals := []
  near l f := f.log = l
  counts _ _ := True
  counts_true _ := trivial
  counts_expired _ := trivial
  counts_emit _ _ _ := trivial
  counts_print _ _ := trivial
  file_eq := file_setting p limit v
  limit_eq := limit_setting p limit v
  disorder_eq := disorder_setting p limit v
  expired := by
    rintro _ f rfl
    exact ⟨rfl, rfl⟩
  input _ _ _ _ := rfl
  emit := by
    rintro _ f site u rfl
    rfl
  print := by
    rintro _ f line rfl
    rfl

/-- A name that is left alone is followed if the module variable has the value of the node that the
name is looked up as. -/
theorem outer_evaluator
    (h : Table.get? n globals = (p.global? n).bind (Table.get? · v.values)) :
    (evaluator p limit v globals).Outer n := by
  intro span
  refine .machine fun m hm => ?_
  have hglobals : m.globals = globals := hm.2
  rw [hglobals]
  have hread : ∀ {l f} (j : NodeId), (evaluator p limit v globals).near l f →
      (evaluator p limit v globals).near l (f.read v j).2 := fun {_ f} j hnear =>
    (Footprint.log_read v j f).trans hnear
  cases hn : Table.get? n globals with
  | some x => exact couples_answer (some x) rfl hread (hn.symm.trans h)
  | none => exact couples_answer none rfl hread (hn.symm.trans h)

end Declaration

namespace Script

section Statement

variable {script : Script} {p : Program} {limit : Nat} {d : Declaration} {position : Nat}
  {node : NodeId} {kind : String} {span : Span} {binds : Option String} {e : Expr}
  {rename : String → String} {v : Visit} {globals : Table String Value} {n : String} {i : Nat}
  {j : NodeId} {forward : Bool}

namespace SplitsInto

/-! ## Arguments -/

theorem has_functions (h : script.SplitsInto p) :
    Table.has n p.functions = Table.has n script.bindings.functions := by
  rw [Bool.eq_iff_iff, h.has_nodes, Table.has, Option.isSome_iff_exists]
  exact exists_congr fun fd => h.get?_functions

/-- A dependency has the name that it stands for as its argument. -/
theorem getElem?_arguments (h : script.SplitsInto p)
    (hdeclare : (Slot.statement node kind span binds e).declare script.bindings position = .ok d)
    (hi : d.dependencies[i]? = some j) (hpair : (j, n) ∈ script.pairs position e) :
    d.arguments[i]? = some n := by
  cases hdeclare
  obtain ⟨name, hnames, hpairs⟩ := Dependencies.names_eq (script.pairs position e)
  have hname : name j = n :=
    h.name_eq_of_mem_pairs hpair (hpairs j (List.mem_of_getElem? hi))
  show (Dependencies.ofPairs (script.pairs position e)).names[i]? = some n
  rw [hnames, List.getElem?_map]
  exact (congrArg (Option.map name) hi).trans (congrArg some hname)

/-- A variable that stands for something is an argument. -/
theorem mem_arguments_of_resolve (h : script.SplitsInto p)
    (hdeclare : (Slot.statement node kind span binds e).declare script.bindings position = .ok d)
    (hn : n ∈ e.names) (hresolve : script.bindings.resolve position n = some (j, forward)) :
    n ∈ d.arguments := by
  have hpair : (j, n) ∈ script.pairs position e := mem_pairs.2 (Or.inl ⟨hn, forward, hresolve⟩)
  obtain ⟨rename, hrenames⟩ := h.renames hdeclare
  obtain ⟨i, hi⟩ := List.mem_iff_getElem?.1 ((hrenames.mem_dependencies j).2 ⟨n, hpair⟩)
  exact List.mem_of_getElem? (h.getElem?_arguments hdeclare hi hpair)

/-- A variable that stands for nothing is not seen unless it is captured. -/
theorem seen_of_not_mem_arguments (h : script.SplitsInto p)
    (hdeclare : (Slot.statement node kind span binds e).declare script.bindings position = .ok d)
    (hn : n ∈ e.names) (hnot : n ∉ d.arguments)
    (hfree : ∀ i < d.dependencies.length, n ≠ paramName i) : d.seen p v n = none := by
  have hparameter : d.parameter? p n = none := by
    rw [Declaration.parameter?, Declaration.parameterNamed?_eq_none.2 hfree,
      List.idxOf?_eq_none_iff.2 hnot, Option.or_none, ite_self]
  have hresolve : script.bindings.resolve position n = none := by
    by_contra hne
    obtain ⟨⟨j, forward⟩, hresolve⟩ := Option.ne_none_iff_exists'.1 hne
    exact hnot (h.mem_arguments_of_resolve hdeclare hn hresolve)
  have hglobal : p.global? n = none := by
    rw [Program.global?, h.globals_eq, bindings, Bindings.get?_globals, ← Bindings.of_ofSlots,
      ← bindings, resolve_eq_none_iff.1 hresolve]
    rfl
  rw [Declaration.seen, hparameter, hglobal]
  rfl

section NoCalls

variable (hcalls : ∀ f ∈ e.calls, Table.has f p.functions = false)
include hcalls

/-- Without calls, the pairs are variables with the nodes that they stand for. -/
theorem resolve_of_mem_pairs (h : script.SplitsInto p) (hpair : (j, n) ∈ script.pairs position e) :
    n ∈ e.names ∧ ∃ forward, script.bindings.resolve position n = some (j, forward) := by
  refine (mem_pairs.1 hpair).resolve_right ?_
  rintro ⟨hcall, hget⟩
  have hno := hcalls n hcall
  rw [h.has_functions, Table.has, hget] at hno
  cases hno

/-- No name is an argument twice. -/
theorem nodup_arguments (h : script.SplitsInto p) (hd : d ∈ p.nodes)
    (hdeclare : (Slot.statement node kind span binds e).declare script.bindings position = .ok d) :
    d.arguments.Nodup := by
  have hnodup := (h.sorted_dependencies hd).nodup
  cases hdeclare
  obtain ⟨name, hnames, hpairs⟩ := Dependencies.names_eq (script.pairs position e)
  show (Dependencies.ofPairs (script.pairs position e)).names.Nodup
  rw [hnames]
  refine List.Nodup.map_on (fun j hj j' hj' heq => ?_) hnodup
  obtain ⟨-, forward, hresolve⟩ := h.resolve_of_mem_pairs hcalls (hpairs j hj)
  obtain ⟨-, forward', hresolve'⟩ := h.resolve_of_mem_pairs hcalls (hpairs j' hj')
  rw [heq, hresolve'] at hresolve
  cases hresolve
  rfl

/-- The arguments are variables that stand for something. -/
theorem resolve_of_mem_arguments (h : script.SplitsInto p)
    (hdeclare : (Slot.statement node kind span binds e).declare script.bindings position = .ok d)
    (hn : n ∈ d.arguments) : script.bindings.resolve position n ≠ none := by
  cases hdeclare
  obtain ⟨name, hnames, hpairs⟩ := Dependencies.names_eq (script.pairs position e)
  have hn : n ∈ (Dependencies.ofPairs (script.pairs position e)).names := hn
  rw [hnames] at hn
  obtain ⟨j, hj, rfl⟩ := List.mem_map.1 hn
  obtain ⟨-, forward, hresolve⟩ := h.resolve_of_mem_pairs hcalls (hpairs j hj)
  rw [hresolve]
  exact Option.some_ne_none _

/-- What the node makes of a variable of the expression. -/
theorem readsAs_rename (h : script.SplitsInto p) (hd : d ∈ p.nodes)
    (hdeclare : (Slot.statement node kind span binds e).declare script.bindings position = .ok d)
    (hrenames : script.Renames position e d rename) (hn : n ∈ e.names) :
    d.ReadsAs p n (rename n) := by
  by_cases hfun : Table.has n p.functions = true
  · rw [hrenames.same n hn (Or.inl (h.has_functions ▸ hfun))]
    refine Declaration.readsAs_of_kept ?_
    rw [Declaration.parameter?, if_pos hfun]
  · cases hresolve : script.bindings.resolve position n with
    | none =>
      have hnone : d.arguments.idxOf? n = none := by
        rw [List.idxOf?_eq_none_iff]
        exact fun hmem => h.resolve_of_mem_arguments hcalls hdeclare hmem hresolve
      rw [hrenames.same n hn (Or.inr hresolve)]
      refine Declaration.readsAs_of_kept ?_
      rw [Declaration.parameter?, if_neg hfun, hnone, Option.none_or]
    | some x =>
      obtain ⟨i, hi, hdep⟩ := hrenames.param n hn x.1 x.2 hresolve
        (by rw [← h.has_functions]; simpa using hfun)
      have hargument : d.arguments[i]? = some n := h.getElem?_arguments hdeclare hdep
        (mem_pairs.2 (Or.inl ⟨hn, x.2, hresolve⟩))
      have hindex := Declaration.idxOf?_arguments (h.nodup_arguments hcalls hd hdeclare) hargument
      refine .parameter ?_ hi hdep
      rw [Declaration.parameter?, if_neg hfun, hindex, Option.some_or]

/-- What the node sees is followed if it is what the module variables are. -/
theorem couples_lookup_evaluator (h : script.SplitsInto p) (hd : d ∈ p.nodes)
    (hdeclare : (Slot.statement node kind span binds e).declare script.bindings position = .ok d)
    (hrenames : script.Renames position e d rename) (hn : n ∈ e.names)
    (hseen : Table.get? n globals = d.seen p v n) (span' : Span) :
    Couples (Declaration.evaluator p limit v globals) (fun _ => True)
      ((Declaration.evaluator p limit v globals).left.lookup .module n span')
      ((Declaration.evaluator p limit v globals).right.lookup (d.scope v) (rename n) span') := by
  rcases h.readsAs_rename hcalls hd hdeclare hrenames hn with
    ⟨hparameter, hrename, hdep⟩ | ⟨hnone, hrename, hne⟩
  · have hglobal := hseen
    rw [Declaration.seen, hparameter] at hglobal
    rw [hrename, Setting.lookup_of_local (Declaration.get?_scope v hdep)]
    exact Setting.couples_lookup_of_global hglobal span'
  · have hglobal : Table.get? n globals = (p.global? n).bind (Table.get? · v.values) := by
      rw [hseen, Declaration.seen, hnone]
    rw [hrename, Setting.lookup_of_not_local (Declaration.get?_scope_of_ne hne)]
    exact Declaration.outer_evaluator hglobal span'

/-- The expression of a statement is followed by its node. -/
theorem couples_evaluator (limit : Nat) (h : script.SplitsInto p) (hd : d ∈ p.nodes)
    (hdeclare : (Slot.statement node kind span binds e).declare script.bindings position = .ok d)
    (hrenames : script.Renames position e d rename)
    (hseen : ∀ n ∈ e.names, Table.get? n globals = d.seen p v n) :
    Couples (Declaration.evaluator p limit v globals) (fun _ => True)
      (e.evalWith (setting p.file v.inputs limit)
        (FunctionDef.invoke (setting p.file v.inputs limit) limit) .module)
      ((e.mapWith id rename).evalWith (Declaration.setting p limit v)
        (FunctionDef.invoke (Declaration.setting p limit v) limit) (d.scope v)) := by
  have hcouples : Couples (Declaration.evaluator p limit v globals) (fun _ => True)
      ((e.mapWith id id).evalWith (setting p.file v.inputs limit)
        (FunctionDef.invoke (setting p.file v.inputs limit) limit) .module)
      ((e.mapWith id rename).evalWith (Declaration.setting p limit v)
        (FunctionDef.invoke (Declaration.setting p limit v) limit) (d.scope v)) := by
    refine Expr.couples_evalWith e ?_
    rintro (n | f) hx
    · have hn := Expr.mem_names.2 hx
      exact h.couples_lookup_evaluator hcalls hd hdeclare hrenames hn (hseen n hn)
    · intro args span'
      refine .bind (Setting.couples_checkDeadline _ span') fun _ _ => .machine fun m hm => ?_
      have hleft : Table.get? f m.functions = none := by
        rw [hm.1]
        rfl
      have hright : Table.get? f ((Declaration.evaluator p limit v globals).mirror m).functions
          = none := by
        have hno := hcalls f (Expr.mem_calls.2 hx)
        rwa [Table.has, Option.isSome_eq_false_iff, Option.isNone_iff_eq_none] at hno
      rw [hleft, hright]
      exact Setting.couples_callBuiltin _ f args span'
  rwa [Expr.mapWith_id] at hcouples

/-- **A node does what its expression does with the values that it sees.** -/
theorem runsAs_of_seen (limit : Nat) (h : script.SplitsInto p) (hd : d ∈ p.nodes)
    (hdeclare : (Slot.statement node kind span binds e).declare script.bindings position = .ok d)
    (hseen : ∀ n ∈ e.names, Table.get? n globals = d.seen p v n) :
    d.RunsAs p limit e v globals := by
  obtain ⟨rename, hrenames⟩ := h.renames hdeclare
  have hcouples := h.couples_evaluator hcalls limit hd hdeclare hrenames hseen
  obtain ⟨f, hf, hlog⟩ := hcouples.follows { (Machine.fresh []).anchored d.span with globals }
    (.start v.deadline) (.start v) ⟨rfl, rfl⟩ rfl trivial
  have hevaluation : d.evaluation p limit (e.mapWith id rename) v = (_, _, f) := hf
  rw [Declaration.RunsAs, Declaration.body_eq hrenames.task_eq, hevaluation]
  exact ⟨rfl, hlog⟩

/-- An argument that is no function is seen as the value that is passed for it. -/
theorem seen_of_mem_arguments (h : script.SplitsInto p) (hd : d ∈ p.nodes)
    (hdeclare : (Slot.statement node kind span binds e).declare script.bindings position = .ok d)
    (hn : n ∈ d.arguments) (hfun : Table.has n p.functions = false)
    (hlength : v.args.length = d.arguments.length) :
    Table.get? n (Table.ofList (d.arguments.zip v.args)) = d.seen p v n := by
  have hnodup := h.nodup_arguments hcalls hd hdeclare
  obtain ⟨i, hi⟩ := List.mem_iff_getElem?.1 hn
  obtain ⟨hlt, -⟩ := List.getElem?_eq_some_iff.1 hi
  have hparameter : d.parameter? p n = some i := by
    rw [Declaration.parameter?, hfun, if_neg Bool.false_ne_true,
      Declaration.idxOf?_arguments hnodup hi, Option.some_or]
  have harg : v.args[i]? = some (v.arg i) := by
    rw [Visit.arg, List.getElem?_eq_getElem (hlength ▸ hlt)]
    rfl
  have hkeys : Table.keys (d.arguments.zip v.args) = d.arguments :=
    List.map_fst_zip (Nat.le_of_eq hlength.symm)
  rw [Declaration.seen, hparameter]
  refine Table.get?_ofList_of_mem (by rwa [hkeys]) (List.mem_iff_getElem?.2 ⟨i, ?_⟩)
  exact List.getElem?_zip_eq_some.2 ⟨hi, harg⟩

/-- A variable that does not stray is seen as the argument of its name, if there is one. -/
theorem seen_of_not_strays (h : script.SplitsInto p) (hd : d ∈ p.nodes)
    (hdeclare : (Slot.statement node kind span binds e).declare script.bindings position = .ok d)
    (hn : n ∈ e.names) (hstays : ¬ d.Strays p n) (hlength : v.args.length = d.arguments.length) :
    Table.get? n (Table.ofList (d.arguments.zip v.args)) = d.seen p v n := by
  by_cases hmem : n ∈ d.arguments
  · have hfun : Table.has n p.functions = false := by
      rw [← Bool.not_eq_true]
      exact fun hfun => hstays (.shared hmem hfun)
    exact h.seen_of_mem_arguments hcalls hd hdeclare hmem hfun hlength
  · have hkeys : n ∉ Table.keys (Table.ofList (d.arguments.zip v.args)) := by
      rw [Table.mem_keys_ofList]
      exact fun hkey => hmem (List.map_fst_zip (Nat.le_of_eq hlength.symm) ▸ hkey)
    rw [Table.get?_eq_none_iff.2 hkeys]
    exact (h.seen_of_not_mem_arguments hdeclare hn hmem
      fun i hi heq => hstays (.captured hmem hi heq)).symm

end NoCalls

end SplitsInto

end Statement

end Script

namespace Program

variable {file source : String} {script : Script} {p : Program} {d : Declaration}
  {before after : List Slot} {node : NodeId} {kind : String} {span : Span} {binds : Option String}
  {e : Expr}

/-- **Rewriting a statement is hygienic but for variables that stray.**  Let the expression of a
statement call no function of the script.

Every variable of the expression that stands for a node and is no function is renamed to the
parameter at the place of that node.  The node does what the expression does at module level with
what is seen for its variables, at every visit.  If no variable of the expression strays, that is
what it does where exactly the arguments are there, with the values that are passed for them. -/
theorem rewriting_is_hygienic_but_for_strays (hscript : Script.ofSource source = .ok script)
    (hp : Program.ofSource file source = .ok p)
    (hs : script.slots = before ++ .statement node kind span binds e :: after)
    (hd : d ∈ p.nodes) (hid : d.id = node)
    (hcalls : ∀ f ∈ e.calls, Table.has f p.functions = false) :
    (∃ rename, d.task = .expression (e.mapWith id rename) ∧ ∀ n ∈ e.names, ∀ j forward,
      script.bindings.resolve before.length n = some (j, forward) →
      Table.has n p.functions = false →
      ∃ i : Nat, rename n = paramName i ∧ d.dependencies[i]? = some j ∧
        d.arguments[i]? = some n) ∧
    (∀ limit v globals, (∀ n ∈ e.names, Table.get? n globals = d.seen p v n) →
      d.RunsAs p limit e v globals) ∧
    ((∀ n ∈ e.names, ¬ d.Strays p n) → ∀ limit v, v.args.length = d.arguments.length →
      d.RunsAs p limit e v (Table.ofList (d.arguments.zip v.args))) := by
  obtain ⟨script', hscript', h, -⟩ := Script.exists_splitsInto_of_ofSource hp
  obtain rfl : script' = script := Except.ok.inj (hscript'.symm.trans hscript)
  obtain ⟨d', hd', hdeclare⟩ := h.declared hs
  obtain rfl : d' = d := List.inj_on_of_nodup_map h.nodup_nodes hd' hd
    ((Slot.id_declare hdeclare).trans hid.symm)
  obtain ⟨rename, hrenames⟩ := h.renames hdeclare
  refine ⟨⟨rename, hrenames.task_eq, fun n hn j forward hresolve hfun => ?_⟩,
    fun limit v globals hseen => h.runsAs_of_seen hcalls limit hd hdeclare hseen,
    fun hstays limit v hlength => h.runsAs_of_seen hcalls limit hd hdeclare fun n hn =>
      h.seen_of_not_strays hcalls hd hdeclare hn (hstays n hn) hlength⟩
  obtain ⟨i, hi, hdep⟩ := hrenames.param n hn j forward hresolve (h.has_functions ▸ hfun)
  have hpair := Script.mem_pairs.2 (Or.inl ⟨hn, forward, hresolve⟩)
  exact ⟨i, hi, hdep, h.getElem?_arguments hdeclare hdep hpair⟩

/-! ## A variable that is taken for a parameter -/

/-- A text whose last statement reads a variable that is assigned nowhere. -/
def strayText : String := "a = 'x'\ntext(a)\ntext(a + param0)\n"

/-- The expression of its second statement. -/
def tidyExpr : Expr := .call ⟨2, 1⟩ "text" [.name ⟨2, 6⟩ "a"] []

/-- The expression of its last statement. -/
def strayExpr : Expr :=
  .call ⟨3, 1⟩ "text" [.binary ⟨3, 6⟩ .add (.name ⟨3, 6⟩ "a") (.name ⟨3, 10⟩ "param0")] []

/-- The script that the text spells. -/
def strayScript : Script := ⟨[
  .assign ⟨1, 1⟩ "a" (.literal ⟨1, 5⟩ (.text "x")),
  .expr ⟨2, 1⟩ tidyExpr,
  .expr ⟨3, 1⟩ strayExpr]⟩

/-- The node of the second statement. -/
def tidyNode : Declaration where
  id := ⟨"atom_00002_001_text"⟩
  kind := "text"
  span := ⟨2, 1⟩
  binds := none
  dependencies := [⟨"atom_00001_001_expr"⟩]
  arguments := ["a"]
  task := .expression (.call ⟨2, 1⟩ "text" [.name ⟨2, 6⟩ "param0"] [])
  forward := false

/-- The node of the last statement: both variables are the same parameter. -/
def strayNode : Declaration where
  id := ⟨"atom_00003_001_text"⟩
  kind := "text"
  span := ⟨3, 1⟩
  binds := none
  dependencies := [⟨"atom_00001_001_expr"⟩]
  arguments := ["a"]
  task := .expression (.call ⟨3, 1⟩ "text"
    [.binary ⟨3, 6⟩ .add (.name ⟨3, 6⟩ "param0") (.name ⟨3, 10⟩ "param0")] [])
  forward := false

/-- The nodes that the text is split into. -/
def strayProgram : Program where
  file := "app.tr"
  nodes := [
    ⟨⟨"atom_00001_001_expr"⟩, "expr", ⟨1, 1⟩, some "a", [], [],
      .expression (.literal ⟨1, 5⟩ (.text "x")), false⟩,
    tidyNode, strayNode]
  functions := []
  globals := [("a", ⟨"atom_00001_001_expr"⟩)]

theorem script_strayText : Script.ofSource strayText = .ok strayScript := by cbv

theorem ofSource_strayText : ofSource "app.tr" strayText = .ok strayProgram := by
  have hsplit : ofScript "app.tr" strayScript = .ok strayProgram := by cbv
  rw [ofSource, script_strayText]
  exact hsplit

/-- The second statement does not stray.  In the last one, the variable that is assigned nowhere
strays: it has the value of the other one. -/
theorem rewriting_of_strayText :
    (∀ limit v, v.args.length = tidyNode.arguments.length →
      tidyNode.RunsAs strayProgram limit tidyExpr v
        (Table.ofList (tidyNode.arguments.zip v.args))) ∧
    strayNode.Strays strayProgram "param0" ∧
    ∀ limit v, strayNode.RunsAs strayProgram limit strayExpr v
      [("a", v.arg 0), ("param0", v.arg 0)] := by
  have htidy : strayScript.slots
      = [.statement ⟨"atom_00001_001_expr"⟩ "expr" ⟨1, 1⟩ (some "a") (.literal ⟨1, 5⟩ (.text "x"))]
        ++ .statement tidyNode.id "text" ⟨2, 1⟩ none tidyExpr
        :: [.statement strayNode.id "text" ⟨3, 1⟩ none strayExpr] := by cbv
  have hstray : strayScript.slots
      = [.statement ⟨"atom_00001_001_expr"⟩ "expr" ⟨1, 1⟩ (some "a") (.literal ⟨1, 5⟩ (.text "x")),
          .statement tidyNode.id "text" ⟨2, 1⟩ none tidyExpr]
        ++ .statement strayNode.id "text" ⟨3, 1⟩ none strayExpr :: [] := by cbv
  have htidyMem : tidyNode ∈ strayProgram.nodes := by simp [strayProgram]
  have hstrayMem : strayNode ∈ strayProgram.nodes := by simp [strayProgram]
  refine ⟨(rewriting_is_hygienic_but_for_strays script_strayText ofSource_strayText htidy htidyMem
      rfl fun _ _ => rfl).2.2 ?_,
    .captured (i := 0) (by decide) (by decide) rfl,
    fun limit v => (rewriting_is_hygienic_but_for_strays script_strayText ofSource_strayText hstray
      hstrayMem rfl fun _ _ => rfl).2.1 limit v _ ?_⟩
  · intro n hn
    obtain rfl : n = "a" := List.mem_singleton.1 hn
    rintro (⟨hnot, -, -⟩ | ⟨-, hfun⟩)
    · exact hnot (List.mem_singleton_self _)
    · cases hfun
  · intro n hn
    have hn : n = "a" ∨ n = "param0" := by simpa using (show n ∈ ["a", "param0"] from hn)
    rcases hn with rfl | rfl
    · rfl
    · rfl

end Program

end ReactiveScript

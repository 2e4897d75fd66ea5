import ReactiveScript.Proofs.Evaluation.Companion
import ReactiveScript.Proofs.Evaluation.Variables
import ReactiveScript.Proofs.Parts
import ReactiveScript.Proofs.Program.Bindings

/-!
# Renaming and evaluation

An expression with its variables renamed does what the expression did, in a scope in which the new
names stand for what the old ones stood for.  Two things make this so: looking up a name has no
effect that shows, and nothing that an expression does changes what a name stands for.

* `Setting.Steady` — surroundings that always give the same answers.
* `Setting.observed` — the same setting, with everything that a run emits and prints on record.
* `Eval.Same` — two computations do the same as far as it shows.
* `Expr.same_evalWith` — an expression with its variables renamed does the same.
* `Expr.rename_eval` — the theorem.
-/

set_option autoImplicit false

namespace ReactiveScript

variable {σ κ : Type}

/-! ## Surroundings -/

/-- The surroundings always give the same answers about names and inputs.  Nothing else that they
say or show depends on more than their `view`, and being asked for a name leaves that alone. -/
structure Setting.Steady (c : Setting σ) (view : σ → κ) : Prop where
  /-- A name always stands for the same. -/
  global_eq : ∀ n s t, (c.host.global n s).1 = (c.host.global n t).1
  /-- Inputs do not change. -/
  input_eq : ∀ id s t, c.host.input id s = c.host.input id t
  /-- Being asked for a name does not show. -/
  global : ∀ n s, view (c.host.global n s).2 = view s
  /-- The answer about the deadline depends on the view. -/
  expired_eq : ∀ s t, view s = view t → (c.host.expired s).1 = (c.host.expired t).1
  /-- So does the view afterwards. -/
  expired : ∀ s t, view s = view t → view (c.host.expired s).2 = view (c.host.expired t).2
  /-- The view after a unit depends on that before it. -/
  emit : ∀ site u s t, view s = view t → view (c.host.emit site u s) = view (c.host.emit site u t)
  /-- The view after a line depends on that before it. -/
  print : ∀ line s t, view s = view t → view (c.host.print line s) = view (c.host.print line t)

/-- What a run tells its surroundings. -/
inductive Told where
  /-- A unit. -/
  | emitted (u : OutputUnit)
  /-- A printed line. -/
  | printed (line : String)

/-- Surroundings that keep everything that they are told on record, in order. -/
def Host.observed (h : Host σ) : Host (σ × List Told) where
  global n s := ((h.global n s.1).1, (h.global n s.1).2, s.2)
  input id s := h.input id s.1
  emit site u s := (h.emit site u s.1, s.2 ++ [.emitted u])
  print line s := (h.print line s.1, s.2 ++ [.printed line])
  expired s := ((h.expired s.1).1, (h.expired s.1).2, s.2)
  disorder := h.disorder

/-- The same setting, with everything that it is told on record. -/
def Setting.observed (c : Setting σ) : Setting (σ × List Told) :=
  ⟨c.file, c.limit, c.host.observed⟩

variable {c : Setting σ} {view : σ → κ}

/-- A record does not make surroundings less steady, and it shows. -/
theorem Setting.Steady.observed (h : c.Steady view) :
    c.observed.Steady fun s : σ × List Told => (view s.1, s.2) where
  global_eq n s t := h.global_eq n s.1 t.1
  input_eq id s t := h.input_eq id s.1 t.1
  global n s := congrArg (·, s.2) (h.global n s.1)
  expired_eq s t hst := h.expired_eq s.1 t.1 (Prod.mk.inj hst).1
  expired s t hst := Prod.ext (h.expired s.1 t.1 (Prod.mk.inj hst).1) (Prod.mk.inj hst).2
  emit site u s t hst := Prod.ext (h.emit site u s.1 t.1 (Prod.mk.inj hst).1)
    (congrArg (· ++ [Told.emitted u]) (Prod.mk.inj hst).2)
  print line s t hst := Prod.ext (h.print line s.1 t.1 (Prod.mk.inj hst).1)
    (congrArg (· ++ [Told.printed line]) (Prod.mk.inj hst).2)

/-- A run, and the same run where the surroundings have been asked for other names. -/
def Companion.asked (h : c.Steady view) : Companion σ σ where
  left := c
  right := c
  near _ s t := view s = view t
  file_eq := c.file_refl
  limit_eq := c.limit_refl
  disorder_eq := c.disorder_refl
  still hst _ _ := hst
  global {_ s t} n hst :=
    ⟨h.global_eq n t s, (h.global n s).trans (hst.trans (h.global n t).symm)⟩
  expired {_ s t} hst := ⟨(h.expired_eq s t hst).symm, h.expired s t hst⟩
  input {_ s t} id _ := h.input_eq id t s
  print {_ s t} line hst := h.print line s t hst
  count _ hst := hst
  emit {_ s t} _ _ _ hst := h.emit _ _ s t hst

/-! ## Computations -/

namespace Eval

variable {α β : Type}

/-- Both computations do the same on the same machine, as far as it shows, if its module variables
are `globals`; and they leave these alone. -/
def Same (view : σ → κ) (globals : Table String Value) (x y : Eval σ α) : Prop :=
  ∀ m s t, m.globals = globals → view s = view t →
    ∃ t', y m t = ((x m s).1, (x m s).2.1, t') ∧ view (x m s).2.2 = view t' ∧
      (x m s).2.1.globals = globals

namespace Same

variable {globals : Table String Value}

theorem value (a : α) : Same view globals (Eval.value a) (Eval.value a) :=
  fun _ _ t hm hst => ⟨t, rfl, hst, hm⟩

theorem fail (kind : EvalError.Kind) (span : Span) :
    Same view globals (Eval.fail kind span : Eval σ α) (Eval.fail kind span) :=
  fun _ _ t hm hst => ⟨t, rfl, hst, hm⟩

theorem ofChecked (span : Span) (r : Checked α) :
    Same view globals (Eval.ofChecked span r) (Eval.ofChecked span r) := by
  cases r with
  | ok a => exact value a
  | error kind => exact fail kind span

theorem bind {x y : Eval σ α} {f g : α → Eval σ β} (h : Same view globals x y)
    (hf : ∀ a, Same view globals (f a) (g a)) : Same view globals (x >>= f) (y >>= g) := by
  intro m s t hm hst
  obtain ⟨t', ht', hview, hglobals⟩ := h m s t hm hst
  rw [bind_apply x f, bind_apply y g, ht']
  rcases hx : x m s with ⟨a | e | p, m', s'⟩ <;> rw [hx] at hview hglobals
  · exact hf a m' s' t' hglobals hview
  · exact ⟨t', rfl, hview, hglobals⟩
  · exact ⟨t', rfl, hview, hglobals⟩

/-- What goes together and leaves the module variables alone does the same. -/
theorem of_together {h : c.Steady view} {P : α → Prop} {x : Eval σ α}
    (htogether : Together (Companion.asked h) x x) (hleaves : Leaves P x) :
    Same view globals x x := by
  intro m s t hm hst
  obtain ⟨t', ht', hview⟩ := htogether m s t hst
  exact ⟨t', ht', hview, (hleaves m s).1.trans hm⟩

end Same

end Eval

open Eval

/-! ## Names -/

namespace Setting

theorem lookup_eq (c : Setting σ) (scope : Scope) (name : String) (span : Span) (m : Machine)
    (s : σ) : c.lookup scope name span m s =
      match Table.get? name scope.locals with
      | some v => (.value v, m, s)
      | none =>
        match Table.get? name m.globals with
        | some v => (.value v, m, s)
        | none =>
          match (c.host.global name s).1 with
          | some v => (.value v, m, (c.host.global name s).2)
          | none => (.error ⟨.name name, span, []⟩, m, (c.host.global name s).2) := by
  rw [lookup]
  cases Table.get? name scope.locals with
  | some v => rfl
  | none =>
    show (match Table.get? name m.globals with | some v => Eval.value v | none => _ : Eval σ Value) m s
      = _
    cases Table.get? name m.globals with
    | some v => rfl
    | none =>
      show (match (c.host.global name s).1 with | some v => _ | none => _ : Eval σ Value) m _ = _
      cases (c.host.global name s).1 <;> rfl

/-- Looking up a name does not show, and always ends in the same way. -/
theorem Steady.lookup (h : c.Steady view) (scope : Scope) (name : String) (span : Span)
    {m m' : Machine} (hm : m'.globals = m.globals) (s s' : σ) :
    (c.lookup scope name span m' s').1 = (c.lookup scope name span m s).1 ∧
      (c.lookup scope name span m' s').2.1 = m' ∧
        view (c.lookup scope name span m' s').2.2 = view s' := by
  rw [lookup_eq, lookup_eq, hm, h.global_eq name s' s]
  cases Table.get? name scope.locals with
  | some v => exact ⟨rfl, rfl, rfl⟩
  | none =>
    cases Table.get? name m.globals with
    | some v => exact ⟨rfl, rfl, rfl⟩
    | none =>
      cases (c.host.global name s).1 with
      | some v => exact ⟨rfl, rfl, h.global name s'⟩
      | none => exact ⟨rfl, rfl, h.global name s'⟩

/-- Names that stand for the same at one moment do so at all times. -/
theorem Steady.same_lookup (h : c.Steady view) {A B : Scope} {x y : String} {span : Span}
    {m : Machine} {s : σ}
    (hxy : (c.lookup A x span m s).1 = (c.lookup B y span m s).1) :
    Same view m.globals (c.lookup A x span) (c.lookup B y span) := by
  intro m' s' t' hm hst
  obtain ⟨hx, hmx, hviewx⟩ := h.lookup A x span hm s s'
  obtain ⟨hy, hmy, hviewy⟩ := h.lookup B y span hm s t'
  refine ⟨(c.lookup B y span m' t').2.2, ?_, ?_, ?_⟩
  · rw [hx, hmx, hxy, ← hy]
    exact Prod.ext rfl (Prod.ext hmy rfl)
  · rw [hviewx, hviewy, hst]
  · rw [hmx, hm]

theorem Steady.same_call (h : c.Steady view) (n : Nat) (globals : Table String Value)
    (function : String) (args : Arguments) (span : Span) :
    Same view globals (c.call (FunctionDef.invoke c n) function args span)
      (c.call (FunctionDef.invoke c n) function args span) :=
  .of_together (h := h)
    (together_call (FunctionDef.together_invoke (Companion.asked h) n) function args span)
    (leaves_call (FunctionDef.leaves_invoke c n) function args span)

end Setting

/-! ## Expressions -/

theorem same_formatted (view : σ → κ) (globals : Table String Value) (v : Value)
    (places : Option Nat) : Same view globals (formatted v places) (formatted v places) := by
  cases places with
  | none => exact .value _
  | some p =>
    cases v with
    | number n =>
      rw [formatted]
      split
      · exact .value _
      · exact fun _ _ t hm hst => ⟨t, rfl, hst, hm⟩
    | _ => exact .value _

namespace Expr

section Walk

variable {rename : String → String} {A B : Scope} {globals : Table String Value} {n : Nat}

variable (c view rename A B globals) in
/-- A variable that something mentions stands for the same under its new name. -/
def StandsFor (mention : String ⊕ String) : Prop :=
  ∀ x, mention = .inl x → ∀ span, Same view globals (c.lookup A x span) (c.lookup B (rename x) span)

mutual

/-- **An expression with its variables renamed does the same.** -/
theorem same_evalWith (h : c.Steady view) : (e : Expr) →
    (∀ r ∈ e.mentions, StandsFor c view rename A B globals r) →
    Same view globals (e.evalWith c (FunctionDef.invoke c n) A)
      ((e.mapWith id rename).evalWith c (FunctionDef.invoke c n) B)
  | .literal _ v, _ => .value v
  | .name span x, hnames => hnames (.inl x) (List.mem_singleton_self _) x rfl span
  | .format _ ps, hnames => by
    rw [mapWith, evalWith, evalWith]
    exact .bind (same_evalPieces h ps "" hnames) fun _ => .value _
  | .list _ es, hnames => by
    rw [mapWith, evalWith, evalWith]
    exact .bind (same_evalAll h es hnames) fun _ => .value _
  | .dict span es, hnames => by
    rw [mapWith, evalWith, evalWith]
    exact .bind (same_evalEntries h span es [] hnames) fun _ => .value _
  | .unary span op e, hnames => by
    rw [mapWith, evalWith, evalWith]
    exact .bind (same_evalWith h e hnames) fun _ => .ofChecked span _
  | .binary span op l r, hnames => by
    obtain ⟨hl, hr⟩ := List.forall_mem_append.1 hnames
    rw [mapWith, evalWith, evalWith]
    refine .bind (same_evalWith h l hl) fun _ => ?_
    exact .bind (same_evalWith h r hr) fun _ => .ofChecked span _
  | .logical _ op l r, hnames => by
    obtain ⟨hl, hr⟩ := List.forall_mem_append.1 hnames
    rw [mapWith, evalWith, evalWith]
    refine .bind (same_evalWith h l hl) fun a => ?_
    split
    · exact .value a
    · exact .value a
    · exact same_evalWith h r hr
  | .call span f args kws, hnames => by
    obtain ⟨-, hnames⟩ := List.forall_mem_cons.1 hnames
    obtain ⟨hargs, hkws⟩ := List.forall_mem_append.1 hnames
    rw [mapWith, evalWith, evalWith]
    refine .bind (same_evalAll h args hargs) fun positional => ?_
    refine .bind (same_evalKeywords h kws [] hkws) fun keywords => ?_
    exact h.same_call n globals f _ span
  | .index span e i, hnames => by
    obtain ⟨he, hi⟩ := List.forall_mem_append.1 hnames
    rw [mapWith, evalWith, evalWith]
    refine .bind (same_evalWith h e he) fun _ => ?_
    exact .bind (same_evalWith h i hi) fun _ => .ofChecked span _
  | .attribute span e field, hnames => by
    rw [mapWith, evalWith, evalWith]
    exact .bind (same_evalWith h e hnames) fun _ => .ofChecked span _

theorem same_evalPieces (h : c.Steady view) : (ps : List Piece) → (text : String) →
    (∀ r ∈ pieceMentions ps, StandsFor c view rename A B globals r) →
    Same view globals (evalPieces c (FunctionDef.invoke c n) A text ps)
      (evalPieces c (FunctionDef.invoke c n) B text (mapPieces id rename ps))
  | [], _, _ => .value _
  | .text s :: ps, text, hnames => by
    rw [mapPieces, evalPieces, evalPieces]
    exact same_evalPieces h ps (text ++ s) hnames
  | .hole e places :: ps, text, hnames => by
    obtain ⟨he, hps⟩ := List.forall_mem_append.1 hnames
    rw [mapPieces, evalPieces, evalPieces]
    refine .bind (same_evalWith h e he) fun v => ?_
    exact .bind (same_formatted view globals v places) fun s =>
      same_evalPieces h ps (text ++ s) hps

theorem same_evalAll (h : c.Steady view) : (es : List Expr) →
    (∀ r ∈ allMentions es, StandsFor c view rename A B globals r) →
    Same view globals (evalAll c (FunctionDef.invoke c n) A es)
      (evalAll c (FunctionDef.invoke c n) B (mapAll id rename es))
  | [], _ => .value _
  | e :: es, hnames => by
    obtain ⟨he, hes⟩ := List.forall_mem_append.1 hnames
    rw [mapAll, evalAll, evalAll]
    refine .bind (same_evalWith h e he) fun _ => ?_
    exact .bind (same_evalAll h es hes) fun _ => .value _

theorem same_evalEntries (h : c.Steady view) (span : Span) : (es : List (Expr × Expr)) →
    (entries : Table String Value) →
    (∀ r ∈ entryMentions es, StandsFor c view rename A B globals r) →
    Same view globals (evalEntries c (FunctionDef.invoke c n) A span entries es)
      (evalEntries c (FunctionDef.invoke c n) B span entries (mapEntries id rename es))
  | [], _, _ => .value _
  | (key, e) :: es, entries, hnames => by
    obtain ⟨hfirst, hes⟩ := List.forall_mem_append.1 hnames
    obtain ⟨hkey, he⟩ := List.forall_mem_append.1 hfirst
    rw [mapEntries, evalEntries, evalEntries]
    refine .bind (same_evalWith h key hkey) fun _ => .bind (.ofChecked span _) fun key => ?_
    exact .bind (same_evalWith h e he) fun v => same_evalEntries h span es _ hes

theorem same_evalKeywords (h : c.Steady view) : (es : List (String × Expr)) →
    (keywords : Table String Value) →
    (∀ r ∈ keywordMentions es, StandsFor c view rename A B globals r) →
    Same view globals (evalKeywords c (FunctionDef.invoke c n) A keywords es)
      (evalKeywords c (FunctionDef.invoke c n) B keywords (mapKeywords id rename es))
  | [], _, _ => .value _
  | (_, e) :: es, keywords, hnames => by
    obtain ⟨he, hes⟩ := List.forall_mem_append.1 hnames
    rw [mapKeywords, evalKeywords, evalKeywords]
    exact .bind (same_evalWith h e he) fun v => same_evalKeywords h es _ hes

end

end Walk

/-- An expression with its variables renamed does the same, whatever else has been asked for. -/
theorem same_eval (h : c.Steady view) (names : Table String String) (e : Expr) {A B : Scope}
    {m : Machine} {s : σ} (hnames : ∀ x ∈ e.references.names, ∀ span,
      (c.lookup A x span m s).1 = (c.lookup B (renamed names x) span m s).1) :
    Same view m.globals (e.evalWith c (c.invocation m) A)
      ((e.rename names).evalWith c (c.invocation m) B) := by
  refine same_evalWith h e fun r hr x hx span => h.same_lookup (hnames x ?_ span)
  rw [hx] at hr
  exact mem_sortedTexts.2 (mem_names.2 hr)

/-! ## What an expression refers to -/

/-- The variables that a renamed expression refers to are those that it referred to, renamed. -/
theorem names_references_rename (names : Table String String) (e : Expr) :
    (e.rename names).references.names =
      sortedTexts (e.references.names.map (renamed names)) := by
  refine sortedTexts_congr fun n => ?_
  rw [mem_names, rename, mentions_mapWith, List.mem_map, List.mem_map]
  constructor
  · rintro ⟨m | f, hmention, heq⟩
    · exact ⟨m, mem_sortedTexts.2 (mem_names.2 hmention), Sum.inl.inj heq⟩
    · cases heq
  · rintro ⟨m, hm, rfl⟩
    exact ⟨.inl m, mem_names.1 (mem_sortedTexts.1 hm), rfl⟩

/-- It calls the same functions. -/
theorem calls_references_rename (names : Table String String) (e : Expr) :
    (e.rename names).references.calls = e.references.calls := by
  refine sortedTexts_congr fun f => ?_
  rw [mem_calls, mem_calls, rename, mentions_mapWith, List.mem_map]
  constructor
  · rintro ⟨m | g, hmention, heq⟩
    · cases heq
    · cases heq
      exact hmention
  · exact fun h => ⟨.inr f, h, rfl⟩

/-- Every part of it is where it was. -/
theorem spans_rename (names : Table String String) (e : Expr) :
    (e.rename names).parts.map span = e.parts.map span := by
  rw [rename, parts_mapWith, List.map_map]
  exact List.map_congr_left fun e _ => span_mapWith id (renamed names) e

end Expr

/-! ## What a run tells its surroundings -/

/-- A run, and the same run on record. -/
def Companion.recorded (c : Setting σ) : Companion σ (σ × List Told) where
  left := c
  right := c.observed
  near _ s t := t.1 = s
  file_eq := rfl
  limit_eq := rfl
  disorder_eq := rfl
  still hst _ _ := hst
  global {_ _ _} _ hst := hst ▸ ⟨rfl, rfl⟩
  expired {_ _ _} hst := hst ▸ ⟨rfl, rfl⟩
  input {_ _ _} _ hst := hst ▸ rfl
  print {_ _ _} _ hst := hst ▸ rfl
  count _ hst := hst
  emit {_ _ _} _ _ _ hst := hst ▸ rfl

/-- What evaluating an expression tells the surroundings, in order. -/
def Setting.told (c : Setting σ) (scope : Scope) (e : Expr) (m : Machine) (s : σ) : List Told :=
  (e.eval c.observed scope m (s, [])).2.2.2

/-- A run on record ends as it does without, on the same machine and in the same surroundings. -/
theorem Expr.eval_observed (c : Setting σ) (scope : Scope) (e : Expr) (m : Machine) (s : σ) :
    e.eval c.observed scope m (s, []) = ((e.eval c scope m s).1, (e.eval c scope m s).2.1,
      (e.eval c scope m s).2.2, c.told scope e m s) := by
  obtain ⟨t, ht, hnear⟩ := Expr.together_eval (Companion.recorded c) scope e m s (s, []) rfl
  have hrun : e.eval c.observed scope m (s, []) =
      ((e.eval c scope m s).1, (e.eval c scope m s).2.1, t) := ht
  rw [Setting.told, hrun]
  exact Prod.ext rfl (Prod.ext rfl (Prod.ext hnear rfl))

theorem Setting.lookup_observed (c : Setting σ) (scope : Scope) (name : String) (span : Span)
    (m : Machine) (s : σ) : (c.observed.lookup scope name span m (s, [])).1 =
      (c.lookup scope name span m s).1 := by
  obtain ⟨t, ht, -⟩ := Setting.together_lookup (Companion.recorded c) scope name span m s (s, []) rfl
  exact congrArg Prod.fst ht

/-- **Renaming commutes with evaluation.**  In surroundings that always give the same answers, where
each variable of an expression stands for the same under its new name, the renamed expression ends
with the same value or the same error, on the same machine and with the same view, and emits the same
units and prints the same lines on the way.  It reads the renamed variables, calls the same functions
and has all its parts where they were. -/
theorem Expr.rename_eval (h : c.Steady view) (names : Table String String) (e : Expr) {A B : Scope}
    {m : Machine} {s : σ} (hnames : ∀ x ∈ e.references.names, ∀ span,
      (c.lookup A x span m s).1 = (c.lookup B (renamed names x) span m s).1) :
    ((e.rename names).eval c B m s).1 = (e.eval c A m s).1 ∧
      ((e.rename names).eval c B m s).2.1 = (e.eval c A m s).2.1 ∧
      view ((e.rename names).eval c B m s).2.2 = view (e.eval c A m s).2.2 ∧
      c.told B (e.rename names) m s = c.told A e m s ∧
      (e.rename names).references.names = sortedTexts (e.references.names.map (renamed names)) ∧
      (e.rename names).references.calls = e.references.calls ∧
      (e.rename names).parts.map Expr.span = e.parts.map Expr.span := by
  have hobserved : ∀ x ∈ e.references.names, ∀ span,
      (c.observed.lookup A x span m (s, [])).1 =
        (c.observed.lookup B (renamed names x) span m (s, [])).1 := fun x hx span => by
    rw [c.lookup_observed, c.lookup_observed, hnames x hx span]
  obtain ⟨t, ht, hview, -⟩ := same_eval h.observed names e hobserved m (s, []) (s, []) rfl rfl
  have hrun : (e.rename names).eval c.observed B m (s, []) =
      ((e.eval c.observed A m (s, [])).1, (e.eval c.observed A m (s, [])).2.1, t) := ht
  have hview : (view (e.eval c.observed A m (s, [])).2.2.1, (e.eval c.observed A m (s, [])).2.2.2) =
    (view t.1, t.2) := hview
  rw [eval_observed, eval_observed] at hrun
  rw [eval_observed] at hview
  obtain ⟨hending, hmachine, rfl⟩ : _ ∧ _ ∧ _ = t := by simpa only [Prod.mk.injEq] using hrun
  obtain ⟨hview, htold⟩ := Prod.mk.inj hview
  exact ⟨hending, hmachine, hview.symm, htold.symm, e.names_references_rename names,
    e.calls_references_rename names, e.spans_rename names⟩

/-! ## Surroundings that answer from tables -/

/-- Surroundings that answer from tables are steady. -/
theorem Log.steady_host (file : String) (limit : Nat) (globals : String → Option Value)
    (inputs : InputTable) :
    (⟨file, limit, Log.host globals inputs⟩ : Setting Log).Steady (fun l : Log => l) where
  global_eq _ _ _ := rfl
  input_eq _ _ _ := rfl
  global _ _ := rfl
  expired_eq _ _ hst := hst ▸ rfl
  expired _ _ hst := hst ▸ rfl
  emit _ _ _ _ hst := hst ▸ rfl
  print _ _ _ hst := hst ▸ rfl

/-- A setting in which `rate` is a global name. -/
def rateSetting : Setting Log :=
  ⟨"app.tr", 100, Log.host (fun n => if n = "rate" then some (.text "2") else none) []⟩

/-- Text that prints `price` and `rate`. -/
def priceExpr : Expr :=
  .call ⟨1, 1⟩ "print" [.name ⟨1, 7⟩ "price", .name ⟨1, 14⟩ "rate"] []

/-- A local variable takes a new name, and a global one is taken for a local one. -/
theorem Expr.rename_eval_price :
    rateSetting.told (.ofLocals [("cost", .text "3"), ("param1", .text "2")])
        (priceExpr.rename [("price", "cost"), ("rate", "param1")]) (.fresh []) (.start none) =
      [.printed "3 2"] ∧
    (priceExpr.rename [("price", "cost"), ("rate", "param1")]).references =
      ⟨["cost", "param1"], ["print"]⟩ := by
  have hstands : ∀ x ∈ priceExpr.references.names, ∀ span,
      (rateSetting.lookup (.ofLocals [("price", .text "3")]) x span (.fresh []) (.start none)).1 =
        (rateSetting.lookup (.ofLocals [("cost", .text "3"), ("param1", .text "2")])
          (renamed [("price", "cost"), ("rate", "param1")] x) span (.fresh []) (.start none)).1 := by
    intro x hx span
    have hx : x ∈ ["price", "rate"] := hx
    rcases List.mem_pair.1 hx with rfl | rfl
    · rfl
    · rfl
  have hsteady : rateSetting.Steady fun l : Log => l := Log.steady_host _ _ _ _
  obtain ⟨-, -, -, htold, hnames, hcalls, -⟩ := Expr.rename_eval hsteady
    [("price", "cost"), ("rate", "param1")] priceExpr hstands
  exact ⟨htold.trans rfl, congrArg₂ References.mk (hnames.trans (by decide +kernel)) hcalls⟩

end ReactiveScript

import ReactiveScript.Proofs.Component
import ReactiveScript.Proofs.Evaluation.Coupling
import ReactiveScript.Proofs.Parts

/-!
# Expressions side by side

Under a coupling, the value of an expression is followed if the variables it reads and the functions
it calls are.  The two runs may evaluate it with its variables renamed in different ways.

* `Coupling.Answers` — a variable or function of the left run is followed.
* `Expr.couples_evalWith` — an expression whose mentions are all followed is followed.
* `Setting.couples_callBuiltin` — calls of built-in functions are followed.
-/

set_option autoImplicit false

namespace ReactiveScript

open Eval

variable {σ τ : Type} {k : Coupling σ τ}

namespace Setting

/-! ## Calls of built-in functions -/

theorem couples_checkDeadline (k : Coupling σ τ) (span : Span) :
    Couples k (fun _ => True) (k.left.checkDeadline span) (k.right.checkDeadline span) := by
  refine .bind (.ask k.counts_expired fun s t hst => k.expired hst) fun limit _ => ?_
  cases limit with
  | none => exact .value trivial
  | some limit => exact .fail _ span

/-- The site of the next unit of a call. -/
def site (c : Setting σ) (m : Machine) (call : Span) : Site :=
  ⟨c.file, m.anchor, call, m.occurrence call⟩

/-- What a component makes of its arguments and the input under the id of its unit. -/
def rendered (c : Setting σ) (component : Component) (args : Arguments) (span : Span)
    (m : Machine) (s : σ) : Checked (OutputUnit × Value) :=
  let id := UnitId.ofSite component.name (c.site m span)
  component.render id args (c.host.input id s)

section Component

variable {c : Setting σ} {component : Component} {args : Arguments} {span : Span} {m : Machine}
  {s : σ}

theorem callComponent_of_ok {unit : OutputUnit} {result : Value}
    (h : c.rendered component args span m s = .ok (unit, result)) :
    c.callComponent component args span m s
      = (.value result, m.count span, c.host.emit (c.site m span) unit s) := by
  show (Eval.ofChecked span (c.rendered component args span m s) >>= fun _ => _) _ s = _
  rw [h]
  rfl

theorem callComponent_of_error {kind : EvalError.Kind}
    (h : c.rendered component args span m s = .error kind) :
    c.callComponent component args span m s = (.error ⟨kind, span, []⟩, m.count span, s) := by
  show (Eval.ofChecked span (c.rendered component args span m s) >>= fun _ => _) _ s = _
  rw [h]
  rfl

theorem machine_callComponent : (c.callComponent component args span m s).2.1 = m.count span := by
  cases h : c.rendered component args span m s with
  | ok rendered => rw [callComponent_of_ok h]
  | error kind => rw [callComponent_of_error h]

end Component

theorem couples_callComponent (k : Coupling σ τ) (component : Component) (args : Arguments)
    (span : Span) :
    Couples k (fun _ => True) (k.left.callComponent component args span)
      (k.right.callComponent component args span) := by
  refine ⟨fun m s hm => ?_, fun m s b _ hc => ?_, fun m s a _ _ => ?_, fun _ _ _ _ _ => trivial,
    fun m s t _ hst hc => ?_⟩
  · rw [machine_callComponent]
    exact hm
  · cases h : k.left.rendered component args span m s with
    | ok rendered =>
      rw [callComponent_of_ok h] at hc
      exact k.counts_true (k.counts_emit _ _ hc)
    | error kind =>
      rw [callComponent_of_error h] at hc
      exact k.counts_true hc
  · rw [machine_callComponent]
    rfl
  · have hsite : k.right.site (k.mirror m) span = k.left.site m span := by
      rw [site, site, k.file_eq]
      rfl
    cases h : k.left.rendered component args span m s with
    | ok rendered =>
      rw [callComponent_of_ok h] at hc
      have hinput := k.input (k.left.site m span) rendered.1 hst (k.counts_true hc)
      rw [Component.id_of_render h] at hinput
      have hrendered : k.right.rendered component args span (k.mirror m) t = .ok rendered := by
        rw [← h, Setting.rendered, Setting.rendered, hsite, hinput]
      rw [callComponent_of_ok h, callComponent_of_ok hrendered, hsite]
      exact ⟨_, rfl, k.emit _ _ hst⟩
    | error kind =>
      -- A component that fails does so whatever its input.
      have hrendered : k.right.rendered component args span (k.mirror m) t = .error kind := by
        rw [Setting.rendered, hsite]
        exact Component.render_eq_error h _
      rw [callComponent_of_error h, callComponent_of_error hrendered]
      exact ⟨t, rfl, hst⟩

theorem couples_callHelper (k : Coupling σ τ) (h : Helper) (args : Arguments) (span : Span) :
    Couples k (fun _ => True) (k.left.callHelper h args span) (k.right.callHelper h args span) := by
  rw [callHelper, callHelper, k.disorder_eq]
  split
  · exact .ofChecked span fun _ _ => trivial
  · split
    · exact .ofChecked span fun _ _ => trivial
    · exact .panic _

theorem couples_callBuiltin (k : Coupling σ τ) (function : String) (args : Arguments)
    (span : Span) :
    Couples k (fun _ => True) (k.left.callBuiltin function args span)
      (k.right.callBuiltin function args span) := by
  rw [callBuiltin, callBuiltin]
  split
  · exact couples_callComponent k _ args span
  · split
    · refine .bind (.ofChecked span fun _ _ => trivial) fun line _ => ?_
      exact .bind (.tell (k.counts_print line) fun s t hst => k.print line hst) fun _ _ =>
        .value trivial
    · split
      · exact couples_callHelper k _ args span
      · exact .fail _ span

/-- A function that is neither defined nor built-in cannot be called. -/
theorem callBuiltin_eq_fail {function : String} (h : isBuiltin function = false) (c : Setting σ)
    (args : Arguments) (span : Span) :
    c.callBuiltin function args span = Eval.fail (.name function) span := by
  rw [isBuiltin, Bool.or_eq_false_iff, Bool.or_eq_false_iff] at h
  obtain ⟨⟨hhelper, hprint⟩, hcomponent⟩ := h
  rw [Option.isSome_eq_false_iff, Option.isNone_iff_eq_none] at hhelper hcomponent
  rw [callBuiltin, hcomponent, hhelper]
  simp only
  rw [if_neg (by simpa using hprint)]

end Setting

/-! ## Expressions -/

/-- A variable that is read, or a function that is called, on the left is followed on the right.
The variables may have other names on either side. -/
def Coupling.Answers (k : Coupling σ τ) (invoke : Invocation σ) (invoke' : Invocation τ)
    (scope scope' : Scope) (rename rename' : String → String) : String ⊕ String → Prop
  | .inl n => ∀ span, Couples k (fun _ => True) (k.left.lookup scope (rename n) span)
      (k.right.lookup scope' (rename' n) span)
  | .inr f => ∀ args span, Couples k (fun _ => True) (k.left.call invoke f args span)
      (k.right.call invoke' f args span)

theorem couples_formatted (v : Value) (places : Option Nat) :
    Couples k (fun _ => True) (formatted v places) (formatted v places) := by
  cases places with
  | none => exact .value trivial
  | some p =>
    cases v with
    | number n =>
      rw [formatted, formatted]
      split
      · exact .value trivial
      · exact .panic _
    | _ => exact .value trivial

namespace Expr

theorem mem_names {e : Expr} {n : String} : n ∈ e.names ↔ .inl n ∈ e.mentions := by
  rw [names, List.mem_filterMap]
  constructor
  · rintro ⟨m | f, hx, heq⟩
    · cases heq
      exact hx
    · cases heq
  · exact fun h => ⟨_, h, rfl⟩

theorem mem_calls {e : Expr} {f : String} : f ∈ e.calls ↔ .inr f ∈ e.mentions := by
  rw [calls, List.mem_filterMap]
  constructor
  · rintro ⟨n | g, hx, heq⟩
    · cases heq
    · cases heq
      exact hx
  · exact fun h => ⟨_, h, rfl⟩

variable {invoke : Invocation σ} {invoke' : Invocation τ} {scope scope' : Scope}
  {rename rename' : String → String}

mutual

/-- **An expression is followed if all that it mentions is.** -/
theorem couples_evalWith : (e : Expr) →
    (∀ x ∈ e.mentions, k.Answers invoke invoke' scope scope' rename rename' x) →
    Couples k (fun _ => True) ((e.mapWith id rename).evalWith k.left invoke scope)
      ((e.mapWith id rename').evalWith k.right invoke' scope')
  | .literal _ v, _ => .value trivial
  | .name span n, h => h (.inl n) List.mem_cons_self span
  | .format _ pieces, h => by
    rw [mapWith, mapWith, evalWith, evalWith]
    exact .bind (couples_evalPieces pieces "" h) fun _ _ => .value trivial
  | .list _ es, h => by
    rw [mapWith, mapWith, evalWith, evalWith]
    exact .bind (couples_evalAll es h) fun _ _ => .value trivial
  | .dict span es, h => by
    rw [mapWith, mapWith, evalWith, evalWith]
    exact .bind (couples_evalEntries es span [] h) fun _ _ => .value trivial
  | .unary span op e, h => by
    rw [mapWith, mapWith, evalWith, evalWith]
    exact .bind (couples_evalWith e h) fun _ _ => .ofChecked span fun _ _ => trivial
  | .binary span op l r, h => by
    obtain ⟨hl, hr⟩ := List.forall_mem_append.1 h
    rw [mapWith, mapWith, evalWith, evalWith]
    refine .bind (couples_evalWith l hl) fun _ _ => .bind (couples_evalWith r hr) fun _ _ => ?_
    exact .ofChecked span fun _ _ => trivial
  | .logical _ op l r, h => by
    obtain ⟨hl, hr⟩ := List.forall_mem_append.1 h
    rw [mapWith, mapWith, evalWith, evalWith]
    refine .bind (couples_evalWith l hl) fun a _ => ?_
    split
    · exact .value trivial
    · exact .value trivial
    · exact couples_evalWith r hr
  | .call span f args kws, h => by
    obtain ⟨hf, h⟩ := List.forall_mem_cons.1 h
    obtain ⟨hargs, hkws⟩ := List.forall_mem_append.1 h
    rw [mapWith, mapWith, evalWith, evalWith]
    refine .bind (couples_evalAll args hargs) fun positional _ => ?_
    exact .bind (couples_evalKeywords kws [] hkws) fun keywords _ => hf _ span
  | .index span e i, h => by
    obtain ⟨he, hi⟩ := List.forall_mem_append.1 h
    rw [mapWith, mapWith, evalWith, evalWith]
    refine .bind (couples_evalWith e he) fun _ _ => .bind (couples_evalWith i hi) fun _ _ => ?_
    exact .ofChecked span fun _ _ => trivial
  | .attribute span e field, h => by
    rw [mapWith, mapWith, evalWith, evalWith]
    exact .bind (couples_evalWith e h) fun _ _ => .ofChecked span fun _ _ => trivial

theorem couples_evalPieces : (ps : List Piece) → (text : String) →
    (∀ x ∈ pieceMentions ps, k.Answers invoke invoke' scope scope' rename rename' x) →
    Couples k (fun _ => True) (evalPieces k.left invoke scope text (mapPieces id rename ps))
      (evalPieces k.right invoke' scope' text (mapPieces id rename' ps))
  | [], _, _ => .value trivial
  | .text s :: ps, text, h => by
    rw [mapPieces, mapPieces, evalPieces, evalPieces]
    exact couples_evalPieces ps (text ++ s) h
  | .hole e places :: ps, text, h => by
    obtain ⟨he, hps⟩ := List.forall_mem_append.1 h
    rw [mapPieces, mapPieces, evalPieces, evalPieces]
    refine .bind (couples_evalWith e he) fun v _ => ?_
    exact .bind (couples_formatted v places) fun s _ => couples_evalPieces ps (text ++ s) hps

theorem couples_evalAll : (es : List Expr) →
    (∀ x ∈ allMentions es, k.Answers invoke invoke' scope scope' rename rename' x) →
    Couples k (fun _ => True) (evalAll k.left invoke scope (mapAll id rename es))
      (evalAll k.right invoke' scope' (mapAll id rename' es))
  | [], _ => .value trivial
  | e :: es, h => by
    obtain ⟨he, hes⟩ := List.forall_mem_append.1 h
    rw [mapAll, mapAll, evalAll, evalAll]
    refine .bind (couples_evalWith e he) fun _ _ => ?_
    exact .bind (couples_evalAll es hes) fun _ _ => .value trivial

theorem couples_evalEntries : (es : List (Expr × Expr)) → (span : Span) →
    (entries : Table String Value) →
    (∀ x ∈ entryMentions es, k.Answers invoke invoke' scope scope' rename rename' x) →
    Couples k (fun _ => True) (evalEntries k.left invoke scope span entries (mapEntries id rename es))
      (evalEntries k.right invoke' scope' span entries (mapEntries id rename' es))
  | [], _, _, _ => .value trivial
  | (key, e) :: es, span, entries, h => by
    obtain ⟨h, hes⟩ := List.forall_mem_append.1 h
    obtain ⟨hkey, he⟩ := List.forall_mem_append.1 h
    rw [mapEntries, mapEntries, evalEntries, evalEntries]
    refine .bind (couples_evalWith key hkey) fun _ _ => ?_
    refine .bind (.ofChecked (P := fun _ => True) span fun _ _ => trivial) fun key _ => ?_
    exact .bind (couples_evalWith e he) fun v _ => couples_evalEntries es span _ hes

theorem couples_evalKeywords : (es : List (String × Expr)) → (keywords : Table String Value) →
    (∀ x ∈ keywordMentions es, k.Answers invoke invoke' scope scope' rename rename' x) →
    Couples k (fun _ => True) (evalKeywords k.left invoke scope keywords (mapKeywords id rename es))
      (evalKeywords k.right invoke' scope' keywords (mapKeywords id rename' es))
  | [], _, _ => .value trivial
  | (key, e) :: es, keywords, h => by
    obtain ⟨he, hes⟩ := List.forall_mem_append.1 h
    rw [mapKeywords, mapKeywords, evalKeywords, evalKeywords]
    exact .bind (couples_evalWith e he) fun v _ => couples_evalKeywords es _ hes

end

end Expr

end ReactiveScript

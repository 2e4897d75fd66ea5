import ReactiveScript.Proofs.Evaluation.Function
import ReactiveScript.Proofs.Sorting

/-!
# Single computations

Between two calls of functions of the script the evaluator looks up names, checks the deadline, gives
variables their values, formats text and calls built-in functions.  None of these changes how many
calls are under way or which functions there are, and what fails does so at one position.  Only two
of them can panic.

* `Eval.Level` — computations that leave the depth of calls alone.
* `Eval.PanicsOnly` — those that panic on some grounds only.
* `Eval.Local` — those that leave the functions alone too, and fail at some positions only.
* `Setting.GivesUp` — a call of `sorted` that the library's sort gives up on.
* `Setting.local_callBuiltin` and others — what the evaluator does between two calls.
-/

set_option autoImplicit false

namespace ReactiveScript

variable {σ : Type}

namespace Eval

variable {α β : Type} {grounds : String → Prop}

theorem bind_bind {γ : Type} (x : Eval σ α) (f : α → Eval σ β) (g : β → Eval σ γ) :
    x >>= f >>= g = x >>= fun a => f a >>= g := by
  funext m s
  rw [bind_apply, bind_apply, bind_apply]
  rcases x m s with ⟨a | e | p, m', s'⟩ <;> rfl

/-- A computation leaves the depth of calls alone. -/
def Level (x : Eval σ α) : Prop := ∀ m s, (x m s).2.1.depth = m.depth

namespace Level

theorem value (a : α) : Level (Eval.value a : Eval σ α) := fun _ _ => rfl

theorem fail (kind : EvalError.Kind) (span : Span) : Level (Eval.fail kind span : Eval σ α) :=
  fun _ _ => rfl

theorem ofChecked (span : Span) (v : Checked α) : Level (Eval.ofChecked span v : Eval σ α) := by
  cases v with
  | ok a => exact value a
  | error kind => exact fail kind span

theorem machine : Level (Eval.machine : Eval σ Machine) := fun _ _ => rfl

theorem change {f : Machine → Machine} (hf : ∀ m, (f m).depth = m.depth) :
    Level (Eval.change f : Eval σ Unit) :=
  fun m _ => hf m

theorem ask (f : σ → α × σ) : Level (Eval.ask f) := fun _ _ => rfl

theorem tell (f : σ → σ) : Level (Eval.tell f) := fun _ _ => rfl

theorem bind {x : Eval σ α} {f : α → Eval σ β} (hx : Level x) (hf : ∀ a, Level (f a)) :
    Level (x >>= f) := by
  intro m s
  have hdepth := hx m s
  rw [bind_apply]
  rcases hxm : x m s with ⟨a | e | p, m', s'⟩ <;> rw [hxm] at hdepth
  · exact (hf a m' s').trans hdepth
  · exact hdepth
  · exact hdepth

end Level

/-- A computation panics on some grounds only. -/
def PanicsOnly (grounds : String → Prop) (x : Eval σ α) : Prop :=
  ∀ m s p, (x m s).1 = .panic p → grounds p

namespace PanicsOnly

theorem value (a : α) : PanicsOnly grounds (Eval.value a : Eval σ α) := nofun

theorem fail (kind : EvalError.Kind) (span : Span) :
    PanicsOnly grounds (Eval.fail kind span : Eval σ α) := nofun

theorem ofChecked (span : Span) (v : Checked α) :
    PanicsOnly grounds (Eval.ofChecked span v : Eval σ α) := by
  cases v with
  | ok a => exact value a
  | error kind => exact fail kind span

theorem machine : PanicsOnly grounds (Eval.machine : Eval σ Machine) := nofun

theorem change (f : Machine → Machine) : PanicsOnly grounds (Eval.change f : Eval σ Unit) := nofun

theorem ask (f : σ → α × σ) : PanicsOnly grounds (Eval.ask f) := nofun

theorem tell (f : σ → σ) : PanicsOnly grounds (Eval.tell f) := nofun

theorem bind {x : Eval σ α} {f : α → Eval σ β} (hx : PanicsOnly grounds x)
    (hf : ∀ a, PanicsOnly grounds (f a)) : PanicsOnly grounds (x >>= f) := by
  intro m s p
  have hpanic := hx m s
  rw [bind_apply]
  rcases hxm : x m s with ⟨a | e | q, m', s'⟩ <;> rw [hxm] at hpanic
  · exact hf a m' s' p
  · nofun
  · intro hq
    cases hq
    exact hpanic p rfl

end PanicsOnly

/-- A computation leaves the depth of calls and the functions alone, raises errors at some positions
only, and panics over some things only. -/
structure Local (grounds : String → Prop) (spots : Span → Prop) (x : Eval σ α) : Prop where
  /-- The depth of calls. -/
  level : Level x
  /-- The functions. -/
  functions_eq : ∀ m s, (x m s).2.1.functions = m.functions
  /-- The errors. -/
  spots_of_error : ∀ m s e, (x m s).1 = .error e → e.trace = [] ∧ spots e.span
  /-- The panics. -/
  panicsOnly : PanicsOnly grounds x

namespace Local

variable {spots : Span → Prop} {span : Span}

theorem value (a : α) : Local grounds spots (Eval.value a : Eval σ α) :=
  ⟨.value a, fun _ _ => rfl, fun _ _ => nofun, .value a⟩

theorem fail (hspan : spots span) (kind : EvalError.Kind) :
    Local grounds spots (Eval.fail kind span : Eval σ α) where
  level := .fail kind span
  functions_eq _ _ := rfl
  spots_of_error m s e he := by
    cases he
    exact ⟨rfl, hspan⟩
  panicsOnly := .fail kind span

theorem ofChecked (hspan : spots span) (v : Checked α) :
    Local grounds spots (Eval.ofChecked span v : Eval σ α) := by
  cases v with
  | ok a => exact value a
  | error kind => exact fail hspan kind

theorem panic {p : String} (hp : grounds p) : Local grounds spots (Eval.panic p : Eval σ α) where
  level _ _ := rfl
  functions_eq _ _ := rfl
  spots_of_error _ _ _ := nofun
  panicsOnly m s q hq := by
    cases hq
    exact hp

theorem machine : Local grounds spots (Eval.machine : Eval σ Machine) :=
  ⟨.machine, fun _ _ => rfl, fun _ _ => nofun, .machine⟩

theorem change {f : Machine → Machine} (hdepth : ∀ m, (f m).depth = m.depth)
    (hfunctions : ∀ m, (f m).functions = m.functions) :
    Local grounds spots (Eval.change f : Eval σ Unit) :=
  ⟨.change hdepth, fun m _ => hfunctions m, fun _ _ => nofun, .change f⟩

theorem ask (f : σ → α × σ) : Local grounds spots (Eval.ask f) :=
  ⟨.ask f, fun _ _ => rfl, fun _ _ => nofun, .ask f⟩

theorem tell (f : σ → σ) : Local grounds spots (Eval.tell f) :=
  ⟨.tell f, fun _ _ => rfl, fun _ _ => nofun, .tell f⟩

theorem bind {x : Eval σ α} {f : α → Eval σ β} (hx : Local grounds spots x)
    (hf : ∀ a, Local grounds spots (f a)) : Local grounds spots (x >>= f) where
  level := hx.level.bind fun a => (hf a).level
  functions_eq m s := by
    have hfunctions := hx.functions_eq m s
    rw [bind_apply]
    rcases hxm : x m s with ⟨a | e | p, m', s'⟩ <;> rw [hxm] at hfunctions
    · exact ((hf a).functions_eq m' s').trans hfunctions
    · exact hfunctions
    · exact hfunctions
  spots_of_error m s e := by
    have herror := hx.spots_of_error m s
    rw [bind_apply]
    rcases hxm : x m s with ⟨a | e' | p, m', s'⟩ <;> rw [hxm] at herror
    · exact (hf a).spots_of_error m' s' e
    · intro he
      cases he
      exact herror e rfl
    · nofun
  panicsOnly := hx.panicsOnly.bind fun a => (hf a).panicsOnly

end Local

/-- Where a computation fails and on what grounds it panics does not matter for the depth. -/
theorem Level.of_local {x : Eval σ α} (h : Local (fun _ => True) (fun _ => True) x) : Level x :=
  h.level

/-- Where a computation fails does not matter for the panics. -/
theorem PanicsOnly.of_local {x : Eval σ α} (h : Local grounds (fun _ => True) x) :
    PanicsOnly grounds x := h.panicsOnly

end Eval

open Eval

/-- A call of `sorted` is about more items than are inserted, they do not all compare, and the
library's sort gives up on them. -/
structure Setting.GivesUp (c : Setting σ) (function : String) (args : Arguments)
    (items : List Value) : Prop where
  /-- It is a call of `sorted`. -/
  ofName?_eq : Helper.ofName? function = some .sorted
  /-- It is about these items. -/
  sortArgs_eq : ∃ decreasing, Helper.sortArgs args = .ok (items, decreasing)
  /-- There are many of them. -/
  lt_length : Helper.maxInserted < items.length
  /-- They do not all compare. -/
  not_pairwise : ¬items.Pairwise Value.Comparable
  /-- The library makes nothing of them. -/
  disorder_eq : c.host.disorder items = none

namespace Setting

variable (c : Setting σ) {grounds : String → Prop} {spots : Span → Prop} {span : Span}

theorem local_checkDeadline (hspan : spots span) : Local grounds spots (c.checkDeadline span) := by
  refine .bind (.ask _) fun limit => ?_
  cases limit with
  | none => exact .value ()
  | some limit => exact .fail hspan _

theorem local_lookup (hspan : spots span) (scope : Scope) (name : String) :
    Local grounds spots (c.lookup scope name span) := by
  rw [lookup]
  split
  · exact .value _
  · refine .bind .machine fun m => ?_
    split
    · exact .value _
    · refine .bind (.ask _) fun v => ?_
      cases v with
      | some v => exact .value v
      | none => exact .fail hspan _

theorem local_assign (scope : Scope) (name : String) (v : Value) :
    Local grounds spots (c.assign scope name v) := by
  rw [assign]
  split
  · exact .bind (.change (fun _ => rfl) fun _ => rfl) fun _ => .value scope
  · exact .value _

theorem local_callComponent (hspan : spots span) (component : Component) (args : Arguments) :
    Local grounds spots (c.callComponent component args span) := by
  have hsite : Local grounds spots (c.nextSite span) :=
    .bind .machine fun _ => .bind (.change (fun _ => rfl) fun _ => rfl) fun _ => .value _
  refine .bind hsite fun site => .bind (.ask _) fun state => ?_
  exact .bind (.ofChecked hspan _) fun rendered => .bind (.tell _) fun _ => .value _

theorem local_callHelper (hspan : spots span) {function : String} {h : Helper}
    (hname : Helper.ofName? function = some h) {args : Arguments}
    (hgrounds : ∀ items, c.GivesUp function args items → grounds Helper.disorderMessage) :
    Local grounds spots (c.callHelper h args span) := by
  rw [callHelper]
  split
  · exact .ofChecked hspan _
  · rename_i items hitems
    obtain ⟨rfl, hargs, hlength, hcomparable⟩ := Helper.of_disordered?_eq_some hitems
    split
    · exact .ofChecked hspan _
    · rename_i hdisorder
      exact .panic (hgrounds items ⟨hname, hargs, hlength, hcomparable, hdisorder⟩)

theorem local_callBuiltin (hspan : spots span) (function : String) (args : Arguments)
    (hgrounds : ∀ items, c.GivesUp function args items → grounds Helper.disorderMessage) :
    Local grounds spots (c.callBuiltin function args span) := by
  rw [callBuiltin]
  split
  · exact local_callComponent c hspan _ args
  · split
    · exact .bind (.ofChecked hspan _) fun line => .bind (.tell _) fun _ => .value _
    · split
      · rename_i hname
        exact local_callHelper c hspan hname hgrounds
      · exact .fail hspan _

end Setting

theorem local_formatted {grounds : String → Prop} {spots : Span → Prop} (v : Value)
    (places : Option Nat) (hgrounds : ∀ n q, v = .number n → places = some q → Number.maxPlaces < q →
      grounds "Formatting argument out of range") :
    Local grounds spots (formatted v places : Eval σ String) := by
  cases places with
  | none => exact .value _
  | some q =>
    cases v with
    | number n =>
      rw [formatted]
      split
      · exact .value _
      · exact .panic (hgrounds n q rfl rfl (by omega))
    | _ => exact .value _

end ReactiveScript

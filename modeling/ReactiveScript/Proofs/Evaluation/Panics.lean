import ReactiveScript.Proofs.Evaluation.Single
import ReactiveScript.Proofs.Evaluation.Stepwise

/-!
# What a run panics over

A run can panic at two places only: where a number is formatted, and where `sorted` is called.  It is
enough to look at one step.  What waits or what has happened before makes no difference, so a run that
ends with a panic tells by its last step what it is over.

* `Stepwise.Configuration.PanicsOver` — what the next step panics over.
* `Stepwise.Configuration.panicsOver_of_step` — there is nothing else.
* `Stepwise.Leads.exists_panicsOver` — the last step of a run that ends with a panic.
-/

set_option autoImplicit false

namespace ReactiveScript

open Eval

namespace Stepwise

variable {σ : Type} {c : Setting σ} {a b r : Kind} {grounds : String → Prop}

/-- What the next step panics over. -/
inductive Configuration.PanicsOver (c : Setting σ) : Configuration σ r → String → Prop
  /-- A number is to be formatted with more places than there is room for. -/
  | format {scope : Scope} {text : String} {n : Float} {places : Nat} {ps : List Piece}
      {k : Stack .text r} {m : Machine} {s : σ} : Number.maxPlaces < places →
      PanicsOver c (.resume (Value.number n) (.cons (.hole scope text (some places) ps) k) m s)
        "Formatting argument out of range"
  /-- The built-in `sorted` is called, and the library's sort gives up on what it is given. -/
  | sort {function : String} {args : Arguments} {span : Span} {items : List Value}
      {k : Stack .value r} {m : Machine} {s : σ} : Table.get? function m.functions = none →
      c.GivesUp function args items →
      PanicsOver c (.begin (.call function args span) k m s) Helper.disorderMessage

/-! ## One move -/

theorem panicsOnly_giving {y : Eval σ a.type} (hy : PanicsOnly grounds y) :
    PanicsOnly grounds (giving y) := hy.bind fun _ => .value _

theorem panicsOnly_beginExpr (scope : Scope) (e : Expr) :
    PanicsOnly grounds (beginExpr c scope e) := by
  cases e with
  | name span n => exact panicsOnly_giving (.of_local (c.local_lookup trivial scope n))
  | _ => exact .value _

theorem panicsOnly_beginStmt (scope : Scope) (stmt : Stmt) :
    PanicsOnly grounds (beginStmt scope stmt : Eval σ (Move .flow)) := by
  cases stmt with
  | define => exact .bind (.change _) fun _ => .value _
  | result span e => cases e <;> exact .value _
  | _ => exact .value _

theorem panicsOnly_enter (d : FunctionDef) (args : Arguments) (span : Span) :
    PanicsOnly grounds (enter c d args span) := by
  refine .bind .machine fun m => ?_
  split
  · exact .fail _ span
  · exact .bind (.ofChecked span _) fun _ => .bind (.change _) fun _ => .value _

/-- A call of a function panics if there is none of this name in the script and the library gives up
on what the built-in one is given. -/
theorem panicsOver_call {function : String} {args : Arguments} {span : Span} {k : Stack .value r}
    {m : Machine} {s : σ} {p : String}
    (h : ((Task.call function args span).begin c m s).1 = .panic p) :
    (Configuration.begin (.call function args span) k m s).PanicsOver c p := by
  have hdeadline : Local (fun _ => False) (fun _ => True) (c.checkDeadline span) :=
    c.local_checkDeadline trivial
  have hfunctions := hdeadline.functions_eq m s
  have hcalm := hdeadline.panicsOnly m s
  rw [Task.begin, bind_apply] at h
  rcases hrun : c.checkDeadline span m s with ⟨_ | e | q, m', s'⟩ <;>
    rw [hrun] at h hfunctions hcalm
  · dsimp only at h
    rw [bind_apply] at h
    dsimp only [Eval.machine] at h
    cases hfunction : Table.get? function m'.functions with
    | some d =>
      rw [hfunction] at h
      cases h
    | none =>
      rw [hfunction] at h
      have hbuiltin : Local
          (fun q => q = Helper.disorderMessage ∧ ∃ items, c.GivesUp function args items)
          (fun _ => True) (c.callBuiltin function args span) :=
        c.local_callBuiltin trivial function args fun items hitems => ⟨rfl, items, hitems⟩
      obtain ⟨rfl, items, hitems⟩ := panicsOnly_giving (a := .value) (.of_local hbuiltin) m' s' p h
      exact .sort (hfunctions ▸ hfunction) hitems
  · cases h
  · exact (hcalm q rfl).elim

theorem panicsOver_begin {t : Task a} {k : Stack a r} {m : Machine} {s : σ} {p : String}
    (h : (t.begin c m s).1 = .panic p) : (Configuration.begin t k m s).PanicsOver c p := by
  have hcalm : PanicsOnly (fun _ => False) (t.begin c) →
      (Configuration.begin t k m s).PanicsOver c p := fun hcalm => (hcalm m s p h).elim
  cases t with
  | expr scope e => exact hcalm (panicsOnly_beginExpr scope e)
  | all scope es => exact hcalm (by cases es <;> exact .value _)
  | pieces scope text ps =>
    refine hcalm ?_
    cases ps with
    | nil => exact .value _
    | cons piece ps => cases piece <;> exact .value _
  | entries scope span done es => exact hcalm (by cases es <;> exact .value _)
  | keywords scope done es => exact hcalm (by cases es <;> exact .value _)
  | call function args span => exact panicsOver_call h
  | invoke d args span => exact hcalm (panicsOnly_enter d args span)
  | stmt stmt scope => exact hcalm (panicsOnly_beginStmt scope stmt)
  | block ss scope => exact hcalm (by cases ss <;> exact .value _)
  | branches bs otherwise scope => exact hcalm (by cases bs <;> exact .value _)
  | items span target body vs scope =>
    refine hcalm ?_
    cases vs with
    | nil => exact .value _
    | cons v vs =>
      refine .bind (.of_local (c.local_checkDeadline trivial)) fun _ => ?_
      exact .bind (.of_local (c.local_assign scope target v)) fun _ => .value _
  | script ss =>
    refine hcalm ?_
    cases ss with
    | nil => exact .value _
    | cons stmt rest => exact .bind (.change _) fun _ => .value _

theorem panicsOver_resume {frame : Frame a b} {y : a.type} {k : Stack b r} {m : Machine} {s : σ}
    {p : String} (h : (frame.resume c y m s).1 = .panic p) :
    (Configuration.resume y (.cons frame k) m s).PanicsOver c p := by
  have hcalm : PanicsOnly (fun _ => False) (frame.resume c y) →
      (Configuration.resume y (.cons frame k) m s).PanicsOver c p :=
    fun hcalm => (hcalm m s p h).elim
  cases frame with
  | unary span op => exact hcalm (panicsOnly_giving (.ofChecked span _))
  | right span op v => exact hcalm (panicsOnly_giving (.ofChecked span _))
  | index span v => exact hcalm (panicsOnly_giving (.ofChecked span _))
  | «attribute» span field => exact hcalm (panicsOnly_giving (.ofChecked span _))
  | logical scope op r => exact hcalm (by cases op <;> rw [Frame.resume] <;> split <;> exact .value _)
  | hole scope text places ps =>
    have hformatted : PanicsOnly (fun q => q = "Formatting argument out of range" ∧
        ∃ n q, y = .number n ∧ places = some q ∧ Number.maxPlaces < q)
        ((Frame.hole scope text places ps).resume c y) :=
      .bind (.of_local (local_formatted y places fun n q hn hq hlt => ⟨rfl, n, q, hn, hq, hlt⟩))
        fun _ => .value _
    obtain ⟨rfl, n, q, rfl, rfl, hlt⟩ := hformatted m s p h
    exact .format hlt
  | key scope span done e es => exact hcalm (.bind (.ofChecked span _) fun _ => .value _)
  | assign scope target =>
    exact hcalm (.bind (.of_local (c.local_assign scope target y)) fun _ => .value _)
  | test scope body rest otherwise => exact hcalm (by rw [Frame.resume]; split <;> exact .value _)
  | series scope span target place body =>
    exact hcalm (.bind (.ofChecked place _) fun _ => .value _)
  | item span target body vs => exact hcalm (by cases y <;> exact .value _)
  | next rest => exact hcalm (by cases y <;> exact .value _)
  | body function span => exact hcalm (.bind (.change _) fun _ => by cases y <;> exact .value _)
  | _ => exact hcalm (.value _)

/-! ## One step, and a run -/

namespace Configuration

theorem onto_eq_panicked {e : Ending EvalError (Move a) × Machine × σ} {k : Stack a r} {p : String}
    {m : Machine} {s : σ} (h : onto e k = .panicked p m s) : e.1 = .panic p := by
  rcases e with ⟨move | e | q, m', s'⟩
  · cases move <;> cases h
  · cases h
  · cases h
    rfl

/-- **A step panics over a format or over a sort.** -/
theorem panicsOver_of_step {x : Configuration σ r} {p : String} {m : Machine} {s : σ}
    (h : x.step c = some (.panicked p m s)) : x.PanicsOver c p := by
  cases x with
  | begin t k => exact panicsOver_begin (onto_eq_panicked (Option.some.inj h))
  | resume y k =>
    cases k with
    | nil => cases h
    | cons frame k => exact panicsOver_resume (onto_eq_panicked (Option.some.inj h))
  | unwind e k => cases k <;> cases h
  | panicked => cases h

end Configuration

theorem Leads.exists_last {bound : Nat} {x z : Configuration σ r} (h : Leads c bound x z) :
    x = z ∨ ∃ y, Leads c bound x y ∧ y.step c = some z := by
  induction h with
  | refl _ => exact Or.inl rfl
  | step hx hstep _ ih =>
    rcases ih with rfl | ⟨y, hleads, hlast⟩
    · exact Or.inr ⟨_, .refl hx, hstep⟩
    · exact Or.inr ⟨y, .step hx hstep hleads, hlast⟩

/-- A run from a task to a panic tells by its last step what it is over. -/
theorem Leads.exists_panicsOver {bound : Nat} {t : Task a} {k : Stack a r} {m m' : Machine}
    {s s' : σ} {p : String} (h : Leads c bound (.begin t k m s) (.panicked p m' s')) :
    ∃ x : Configuration σ r, Leads c bound (.begin t k m s) x ∧
      x.step c = some (.panicked p m' s') ∧ x.PanicsOver c p := by
  rcases h.exists_last with heq | ⟨x, hleads, hlast⟩
  · cases heq
  · exact ⟨x, hleads, hlast, x.panicsOver_of_step hlast⟩

end Stepwise

end ReactiveScript

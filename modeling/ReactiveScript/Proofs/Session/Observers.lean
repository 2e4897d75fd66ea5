import Mathlib
import ReactiveScript.Proofs.Audience
import ReactiveScript.Proofs.Layout
import ReactiveScript.Proofs.Memo
import ReactiveScript.Proofs.Session.Reruns

/-!
# What observers see

Whatever requests a session has carried out, an observer whose line has accepted all messages has
received rows since the first run, and the rows that it received last show the units that are on
display: the same ones, each with the same kind, value and width.  What may differ is the order.  A
run is announced only if a unit is new, differs or is gone, and a run that does no more than put
units into another order is none of this.

* `Session.Reached` — the sessions that requests lead to.
* `Session.Quiet` — all but the end of a run leaves alone what observers are told from.
* `Session.Informs` — the invariant: what each observer was told of, and what is on record of it.
* `Session.observers_see_units_on_display` — the theorem.
-/

set_option autoImplicit false

namespace ReactiveScript

open Relation

namespace Session

variable {s s' : Session}

/-- The sessions that requests lead to, if no start and no restart breaks off. -/
inductive Reached (id : SessionId) (settings : Settings) : Session → Prop
  /-- A session that has not been started. -/
  | fresh : Reached id settings (.fresh id settings)
  /-- An observer is attached. -/
  | attach {s : Session} (accepts : Nat → Bool) : Reached id settings s →
      Reached id settings (s.attach accepts).2
  /-- An observer is detached. -/
  | detach {s : Session} (observer : ObserverId) : Reached id settings s →
      Reached id settings (s.detach observer).2
  /-- The line to an observer breaks down. -/
  | hangUp {s : Session} (observer : ObserverId) : Reached id settings s →
      Reached id settings (s.hangUp observer)
  /-- The graph is published. -/
  | publish {s : Session} : Reached id settings s → Reached id settings s.publish
  /-- The session is started. -/
  | start {s : Session} (now : Instant) (source : Source) : Reached id settings s →
      (s.start now source).1 ≠ .crashed → Reached id settings (s.start now source).2
  /-- The session is restarted. -/
  | restart {s : Session} (now : Instant) : Reached id settings s →
      (s.restart now).1 ≠ .crashed → Reached id settings (s.restart now).2
  /-- The session is stopped. -/
  | stop {s : Session} : Reached id settings s → Reached id settings s.stop.2
  /-- Inputs change. -/
  | rerun {s : Session} (now : Instant) (origin : Option ObserverId)
      (changes : Table UnitId Value) : Reached id settings s →
      Reached id settings (s.rerun now origin changes).2

/-! ## Runs do not touch the rows -/

/-- Rows, what is on record of them, and the number of runs are left alone, and observers are sent
no rows. -/
structure Quiet (s s' : Session) : Prop where
  /-- The rows. -/
  rows_eq : s'.rows = s.rows
  /-- What is on record. -/
  shown_eq : s'.shown = s.shown
  /-- How many runs came to their end. -/
  runs_eq : s'.runs = s.runs
  /-- What observers are sent. -/
  audience : ReflTransGen Audience.Quiet s.audience s'.audience

namespace Quiet

theorem refl (s : Session) : s.Quiet s := ⟨rfl, rfl, rfl, .refl⟩

theorem trans {s'' : Session} (h : s.Quiet s') (h' : s'.Quiet s'') : s.Quiet s'' :=
  ⟨h'.rows_eq.trans h.rows_eq, h'.shown_eq.trans h.shown_eq, h'.runs_eq.trans h.runs_eq,
    h.audience.trans h'.audience⟩

/-- What else a session holds makes no difference. -/
theorem unseen (hrows : s'.rows = s.rows) (hshown : s'.shown = s.shown) (hruns : s'.runs = s.runs)
    (haudience : s'.audience = s.audience) : s.Quiet s' :=
  ⟨hrows, hshown, hruns, haudience ▸ .refl⟩

theorem broadcast (skip : Option ObserverId) {m : Message} (hm : m.rows? = none) (s : Session) :
    s.Quiet (s.broadcast skip m) :=
  ⟨rfl, rfl, rfl, .single (.broadcast s.audience skip hm)⟩

theorem announce (node : Option NodeId) (lines : List String) (s : Session) :
    s.Quiet (s.announce node lines) := by
  induction lines generalizing s with
  | nil => exact .refl s
  | cons line lines ih => exact (broadcast none rfl s).trans (ih _)

theorem fail {α : Type} (e : ScriptError) (s : Session) : s.Quiet (s.fail (α := α) e).2 :=
  ⟨rfl, rfl, rfl, .single (.broadcast s.audience none rfl)⟩

theorem runWhole (s : Session) : s.Quiet s.runWhole.2 := by
  rw [Session.runWhole]
  split
  · dsimp only
    split
    · exact (announce none _ s).trans (unseen rfl rfl rfl rfl)
    · exact (announce none _ s).trans (fail _ _)
  · exact .refl s

theorem runWholeFrom (source : Source) (s : Session) : s.Quiet (s.runWholeFrom source).2 := by
  rw [Session.runWholeFrom]
  split
  · exact fail _ s
  · refine Quiet.trans ?_ (runWhole _)
    exact unseen rfl rfl rfl rfl

theorem announceAll (printed : List (NodeId × List String)) (s : Session) :
    s.Quiet (printed.foldl (fun s (node, lines) => s.announce (some node) lines) s) := by
  induction printed generalizing s with
  | nil => exact .refl s
  | cons e printed ih => exact (announce (some e.1) e.2 s).trans (ih _)

theorem apply (r : Report) (s : Session) : s.Quiet (s.apply r) :=
  (announceAll r.printed s).trans (unseen rfl rfl rfl rfl)

theorem runNodes (recompute : Option (List NodeId)) (s : Session) :
    s.Quiet (s.runNodes recompute).2 := by
  rw [Session.runNodes]
  split
  · refine Quiet.trans ?_ (apply _ _)
    exact unseen rfl rfl rfl rfl
  · exact unseen rfl rfl rfl rfl

theorem runCold (s : Session) : s.Quiet s.runCold.2 := by
  rw [Session.runCold]
  split
  · exact runWhole s
  · dsimp only
    split
    · refine Quiet.trans ?_ (runNodes none _)
      exact unseen rfl rfl rfl rfl
    · split
      · refine Quiet.trans ?_ (runWholeFrom _ _)
        exact unseen rfl rfl rfl rfl
      · exact unseen rfl rfl rfl rfl

theorem runAgain (changed : List UnitId) (s : Session) : s.Quiet (s.runAgain changed).2 := by
  rw [Session.runAgain]
  split
  · rw [runAffected]
    dsimp only
    split
    · exact runCold s
    · exact runNodes _ s
  · exact runWhole s

theorem store (origin : Option ObserverId) (changes : Table UnitId Value) (s : Session) :
    s.Quiet (changes.foldl (Session.store origin) s) := by
  induction changes generalizing s with
  | nil => exact .refl s
  | cons change changes ih =>
    refine Quiet.trans ?_ (ih _)
    refine Quiet.trans ?_ (broadcast origin rfl _)
    exact unseen rfl rfl rfl rfl

end Quiet

/-- A script that is run as a whole and refused has failed. -/
theorem state_of_refused_runWholeFrom {source : Source} {e : SessionError}
    (hsource : s.source = some source) (h : (s.runWholeFrom source).1 = .refused e) :
    (s.runWholeFrom source).2.state = .error := by
  rw [runWholeFrom] at h ⊢
  split
  · rfl
  · rename_i script hscript
    rw [hscript] at h
    dsimp only at h
    rw [runWhole] at h ⊢
    simp only [hsource] at h ⊢
    split
    · rename_i units hunits
      rw [hunits] at h
      cases h
    · rfl

/-- Loading a script is a run after which there is an end of a run, unless it is refused or breaks
off. -/
theorem exists_load_eq (now : Instant) (source : Source) (s : Session) :
    ∃ r : Reply Unit × Session, ({ s.unload with source := some source } : Session).Quiet r.2 ∧
      (∀ e, r.1 = .refused e → r.2.state = .error) ∧
      s.load now source = match r.1 with
        | .done _ => (.done (), r.2.finish now true)
        | _ => r := by
  let t : Session := { s.unload with source := some source }
  rw [Session.load]
  dsimp only
  cases hsplit : t.split? source with
  | some pg =>
    let u : Session := { t with
      program := some pg.1, graph := pg.2, mode := .incremental, state := .running }
    refine ⟨u.runNodes none, ?_, fun e he => ?_, rfl⟩
    · refine Quiet.trans ?_ (Quiet.runNodes none _)
      exact .unseen rfl rfl rfl rfl
    · rw [runNodes] at he
      split at he <;> cases he
  | none =>
    exact ⟨t.runWholeFrom source, .runWholeFrom source t,
      fun e he => state_of_refused_runWholeFrom rfl he, rfl⟩

/-- A rerun leaves a session alone, or it is a run after which there is an end of a run, unless it is
refused or breaks off. -/
theorem exists_rerun_eq (now : Instant) (origin : Option ObserverId)
    (changes : Table UnitId Value) (s : Session) :
    (s.rerun now origin changes).2 = s ∨ s.state = .running ∧ ∃ r : Reply RerunOutcome × Session,
      s.Quiet r.2 ∧ (∀ outcome, r.1 = .done outcome → r.2.state = .running) ∧
      s.rerun now origin changes = match r.1 with
        | .done outcome => (.done outcome, r.2.finish now false)
        | _ => r := by
  rcases rerun_cases now origin changes s with heq | ⟨hrunning, heq⟩
  · exact Or.inl heq
  · refine Or.inr ⟨hrunning, _, ?_, fun outcome hdone => ?_, heq⟩
    · refine .trans (.trans ?_ (.store origin (s.accepted changes) _)) (.runAgain _ _)
      exact .unseen rfl rfl rfl rfl
    · obtain ⟨_, _, _, htake, -⟩ := takeUp_eq origin changes s
      refine state_of_done_runAgain ?_ hdone
      rw [htake]
      exact hrunning

/-! ## What observers were told -/

/-- Two lists of the same units, in whatever order, with versions that are alike. -/
structure SameUnits (before after : List OutputUnit) : Prop where
  /-- They are the same units. -/
  mem_ids : ∀ id, id ∈ after.map OutputUnit.id ↔ id ∈ before.map OutputUnit.id
  /-- Their versions are alike. -/
  alike : ∀ u' ∈ after, ∃ u ∈ before, u.Alike u'

theorem SameUnits.refl (us : List OutputUnit) : SameUnits us us :=
  ⟨fun _ => Iff.rfl, fun u hu => ⟨u, hu, .refl u⟩⟩

/-- What an observer that has got all its messages was told last, in a session.  As long as the
session reacts to inputs, what is on record stands for it. -/
def Told (s : Session) : Option (List Row) → Prop
  | none => s.runs = 0
  | some rows => ∃ before after, rows = OutputUnit.pack before ∧ s.rows = OutputUnit.pack after ∧
      SameUnits before after ∧ (s.state = .running → s.shown.Stands before)

/-- The observers of a session know what is on display. -/
structure Informs (s : Session) : Prop where
  /-- Observers have numbers of their own. -/
  sound : s.audience.Sound
  /-- Rows are packed units, which stand on record as long as the session reacts to inputs. -/
  packed : ∃ us, s.rows = OutputUnit.pack us ∧ (s.state = .running → s.shown.Stands us)
  /-- Observers were told of the units on display. -/
  told : s.audience.Each s.Told
  /-- A session that reacts to inputs has come to the end of a run. -/
  runs_ne_zero : s.state = .running → s.runs ≠ 0

theorem informs_fresh (id : SessionId) (settings : Settings) : (fresh id settings).Informs where
  sound := Audience.sound_empty
  packed := ⟨[], rfl, fun h => by cases h⟩
  told o ho := by cases ho
  runs_ne_zero h := by cases h

namespace Informs

/-- Observers stay informed as long as the rows stay and no others are sent. -/
theorem keep (h : s.Informs) (hrows : s'.rows = s.rows) (hruns : s'.runs = s.runs)
    (haudience : ReflTransGen Audience.Quiet s.audience s'.audience)
    (hrunning : s'.state = .running → s.state = .running ∧ s'.shown = s.shown) : s'.Informs where
  sound := h.sound.of_quiet haudience
  packed := by
    obtain ⟨us, hus, hstands⟩ := h.packed
    refine ⟨us, hrows.trans hus, fun hstate => ?_⟩
    rw [(hrunning hstate).2]
    exact hstands (hrunning hstate).1
  told := by
    refine Audience.Each.of_quiet (h.told.imp fun rows htold => ?_) h.sound haudience
    cases rows with
    | none => exact hruns.trans htold
    | some rows =>
      obtain ⟨before, after, heq, hcurrent, hsame, hstands⟩ := htold
      refine ⟨before, after, heq, hrows.trans hcurrent, hsame, fun hstate => ?_⟩
      rw [(hrunning hstate).2]
      exact hstands (hrunning hstate).1
  runs_ne_zero hstate := by
    rw [hruns]
    exact h.runs_ne_zero (hrunning hstate).1

/-- All but the end of a run keeps observers informed. -/
theorem of_quiet (h : s.Informs) (hquiet : s.Quiet s')
    (hstate : s'.state = .running → s.state = .running) : s'.Informs :=
  h.keep hquiet.rows_eq hquiet.runs_eq hquiet.audience fun hrunning =>
    ⟨hstate hrunning, hquiet.shown_eq⟩

/-- A new observer is sent the rows. -/
theorem attach (h : s.Informs) (accepts : Nat → Bool) : (s.attach accepts).2.Informs where
  sound := h.sound.attach accepts _
  packed := h.packed
  told := by
    refine Audience.Each.attach h.told h.sound accepts ?_
    split
    · rename_i hruns
      exact hruns
    · obtain ⟨us, hrows, hstands⟩ := h.packed
      exact ⟨us, us, hrows, hrows, .refl us, hstands⟩
  runs_ne_zero := h.runs_ne_zero

theorem detach (h : s.Informs) (id : ObserverId) : (s.detach id).2.Informs where
  sound := h.sound.detach id
  packed := h.packed
  told := Audience.Each.detach h.told id
  runs_ne_zero := h.runs_ne_zero

theorem hangUp (h : s.Informs) (id : ObserverId) : (s.hangUp id).Informs where
  sound := h.sound.hangUp id
  packed := h.packed
  told := Audience.Each.hangUp h.told id
  runs_ne_zero := h.runs_ne_zero

/-! ## The end of a run -/

/-- What is on record at the end of a run stands for the units on view. -/
theorem stands_finish (now : Instant) (force : Bool) (s : Session) :
    (s.finish now force).shown.Stands (s.view.units s.graph.order) := by
  have hstands := (Memo.sift_retain (s.view.units s.graph.order) s.shown).1
  rw [finish]
  dsimp only
  split <;> exact hstands

/-- The end of a run that is announced in any case. -/
theorem exists_finish_eq (now : Instant) (s : Session) : ∃ shown changed,
    shown.Stands (s.view.units s.graph.order) ∧ s.finish now true = { s with
      shown
      rows := OutputUnit.pack (s.view.units s.graph.order)
      lastRun := some now
      runs := s.runs + 1
      audience := s.audience.broadcast none
        (.components (OutputUnit.pack (s.view.units s.graph.order)) changed) } := by
  have hstands := stands_finish now true s
  rw [finish] at hstands ⊢
  simp only [Bool.not_true, Bool.and_false, Bool.false_eq_true, if_false] at hstands ⊢
  exact ⟨_, _, hstands, rfl⟩

/-- The end of a run that is announced tells all observers of the units on view. -/
theorem finish_of_force (hsound : s.audience.Sound) (now : Instant) :
    (s.finish now true).Informs := by
  obtain ⟨shown, changed, hstands, heq⟩ := exists_finish_eq now s
  rw [heq]
  exact ⟨hsound.broadcast none _, ⟨_, rfl, fun _ => hstands⟩,
    Audience.Each.broadcast_rows hsound _ ⟨_, _, rfl, rfl, .refl _, fun _ => hstands⟩,
    fun _ => Nat.succ_ne_zero _⟩

/-- The end of a run keeps observers informed, whether or not it is announced. -/
theorem finish (h : s.Informs) (hrunning : s.state = .running) (now : Instant) :
    (s.finish now false).Informs := by
  have hstands := stands_finish now false s
  obtain ⟨-, hnone⟩ := Memo.sift_retain (s.view.units s.graph.order) s.shown
  rw [Session.finish] at hstands ⊢
  dsimp only at hstands ⊢
  split
  · rename_i hquiet
    rw [if_pos hquiet] at hstands
    -- Nothing is new and nothing is gone, so what was told before stands for what is on view now.
    simp only [Bool.not_false, Bool.and_true, Bool.and_eq_true, List.isEmpty_iff, beq_iff_eq]
      at hquiet
    obtain ⟨hsame, hrecorded⟩ := hnone hquiet.1 hquiet.2
    refine ⟨h.sound, ⟨_, rfl, fun _ => hstands⟩, h.told.imp fun rows htold => ?_,
      fun _ => Nat.succ_ne_zero _⟩
    cases rows with
    | none => exact absurd htold (h.runs_ne_zero hrunning)
    | some rows =>
      obtain ⟨before, -, hrows, -, -, hbefore⟩ := htold
      have hbefore := hbefore hrunning
      refine ⟨before, _, hrows, rfl, ⟨fun id => ?_, fun u' hu' => ?_⟩, fun _ => ?_⟩
      · rw [← hstands.mem_ids, ← hbefore.mem_ids]
        exact Iff.of_eq (congrArg (fun m : Memo => id ∈ m.ids) hsame)
      · obtain ⟨form, hform, hstands'⟩ := hrecorded u' hu'
        obtain ⟨u, hu, hid, hstandsFor⟩ := hbefore.exists_unit _ _ hform
        exact ⟨u, hu, .of_snapshot hid.symm ⟨form, hstandsFor, hstands'⟩⟩
      · exact hsame.symm ▸ hbefore
  · rename_i hquiet
    rw [if_neg hquiet] at hstands
    exact ⟨h.sound.broadcast none _, ⟨_, rfl, fun _ => hstands⟩,
      Audience.Each.broadcast_rows h.sound _ ⟨_, _, rfl, rfl, .refl _, fun _ => hstands⟩,
      fun _ => Nat.succ_ne_zero _⟩

/-! ## Requests -/

/-- Loading a script keeps observers informed unless it breaks off. -/
theorem load (h : s.Informs) (now : Instant) (source : Source)
    (hcrashed : (s.load now source).1 ≠ .crashed) : (s.load now source).2.Informs := by
  obtain ⟨r, hquiet, hrefused, hload⟩ := exists_load_eq now source s
  rw [hload] at hcrashed ⊢
  have hsound : r.2.audience.Sound := h.sound.of_quiet hquiet.audience
  obtain ⟨reply, t⟩ := r
  cases reply with
  | done => exact finish_of_force hsound now
  | refused e =>
    have hstate : t.state = .error := hrefused e rfl
    exact h.keep hquiet.rows_eq hquiet.runs_eq hquiet.audience fun hrunning => by
      cases hstate.symm.trans hrunning
  | crashed => exact absurd rfl hcrashed

/-- A rerun keeps observers informed. -/
theorem rerun (h : s.Informs) (now : Instant) (origin : Option ObserverId)
    (changes : Table UnitId Value) : (s.rerun now origin changes).2.Informs := by
  rcases exists_rerun_eq now origin changes s with heq | ⟨hrunning, r, hquiet, hdone, heq⟩
  · rw [heq]
    exact h
  · have hr : r.2.Informs := h.of_quiet hquiet fun _ => hrunning
    rw [heq]
    obtain ⟨reply, t⟩ := r
    cases reply with
    | done outcome => exact hr.finish (hdone outcome rfl) now
    | refused | crashed => exact hr

theorem restart (h : s.Informs) (now : Instant) (hcrashed : (s.restart now).1 ≠ .crashed) :
    (s.restart now).2.Informs := by
  rw [Session.restart] at hcrashed ⊢
  split
  · rename_i source hsource
    rw [hsource] at hcrashed
    exact h.load now source hcrashed
  · exact h

theorem start (h : s.Informs) (now : Instant) (source : Source)
    (hcrashed : (s.start now source).1 ≠ .crashed) : (s.start now source).2.Informs := by
  rw [Session.start] at hcrashed ⊢
  split
  · rename_i hinitial
    rw [if_pos hinitial] at hcrashed
    exact h.load now source hcrashed
  · exact h

theorem stop (h : s.Informs) : s.stop.2.Informs := by
  rw [Session.stop]
  split
  · exact h.keep rfl rfl .refl fun hrunning => by cases hrunning
  · exact h

end Informs

/-- Observers of a session are informed, whatever requests it has carried out. -/
theorem Reached.informs {id : SessionId} {settings : Settings} (h : Reached id settings s) :
    s.Informs := by
  induction h with
  | fresh => exact informs_fresh id settings
  | attach accepts _ ih => exact ih.attach accepts
  | detach observer _ ih => exact ih.detach observer
  | hangUp observer _ ih => exact ih.hangUp observer
  | publish _ ih => exact ih.of_quiet (.broadcast none rfl _) fun hrunning => hrunning
  | start now source _ hcrashed ih => exact ih.start now source hcrashed
  | restart now _ hcrashed ih => exact ih.restart now hcrashed
  | stop _ ih => exact ih.stop
  | rerun now origin changes _ ih => exact ih.rerun now origin changes

/-- **Observers see the units that are on display.**  Whatever requests a session has carried out, an
observer whose line has accepted all messages has received rows since the first run, and the rows
that it received last are those of units that are on display, all of them, alike in kind, value and
width.  If they also come in the same order with the same widths, the rows have the same form. -/
theorem observers_see_units_on_display {id : SessionId} {settings : Settings}
    (h : Reached id settings s) {o : Observer} (ho : o ∈ s.audience.observers)
    (haccepted : o.Accepted) :
    (s.runs ≠ 0 → (s.audience.latest o.id).isSome) ∧
      ∀ rows, s.audience.latest o.id = some rows → ∃ before after,
        rows = OutputUnit.pack before ∧ s.rows = OutputUnit.pack after ∧ SameUnits before after ∧
          (before.map OutputUnit.face = after.map OutputUnit.face →
            rows.map (List.map (Placed.map OutputUnit.face))
              = s.rows.map (List.map (Placed.map OutputUnit.face))) := by
  have htold := h.informs.told o ho haccepted
  cases hlatest : s.audience.latest o.id with
  | none =>
    rw [hlatest] at htold
    exact ⟨fun hruns => absurd htold hruns, fun rows hrows => by cases hrows⟩
  | some rows =>
    rw [hlatest] at htold
    obtain ⟨before, after, hrows, hcurrent, hsame, -⟩ := htold
    refine ⟨fun _ => rfl, fun rows' heq => ?_⟩
    obtain rfl : rows = rows' := Option.some.inj heq
    refine ⟨before, after, hrows, hcurrent, hsame, fun hfaces => ?_⟩
    rw [hrows, hcurrent]
    exact OutputUnit.map_face_pack hfaces

/-! ## Sessions that are observed from the beginning -/

/-- Settings that have scripts run as a whole. -/
def wholeSettings : Settings := { Settings.standard with incremental := false }

/-- A session that has its script run as a whole, with an observer whose line accepts everything. -/
def observed : Session := ((fresh ⟨"main"⟩ wholeSettings).attach fun _ => true).2

/-- A session that has its script split into nodes, with such an observer. -/
def watched : Session := (untouched.attach fun _ => true).2

/-! ## An observer of a box that is ticked -/

instance (o : Observer) : Decidable o.Accepted :=
  inferInstanceAs (Decidable (∀ k < o.offered, o.accepts k = true))

/-- There are observers, and their lines have accepted everything. -/
def IsHeard (s : Session) : Prop :=
  0 < s.audience.observers.length ∧ ∀ o ∈ s.audience.observers, o.Accepted

instance (s : Session) : Decidable s.IsHeard := inferInstanceAs (Decidable (_ ∧ _))

theorem IsHeard.exists_observer (h : s.IsHeard) : ∃ o ∈ s.audience.observers, o.Accepted := by
  obtain ⟨o, ho⟩ := List.exists_mem_of_length_pos h.1
  exact ⟨o, ho, h.2 o ho⟩

/-- The box is shown to the observer, and shown again once it has been ticked. -/
theorem exists_split?_watched : ∃ g, watched.split? tickSource = some (tickProgram, g) ∧
    (watched.beforeTick g).1.settle.toOption.isSome ∧ (watched.boxed g).Ticks ∧
    (watched.boxed g).IsHeard ∧ (watched.boxed g).runs = 1 ∧
    (watched.boxed g).ticked.IsHeard ∧ (watched.boxed g).ticked.runs = 2 :=
  exists_split?_of_install watched rfl (by decide +kernel)

/-- The theorem applies to an observer who was there before the first run, and applies again after
the rerun of a box that is ticked. -/
theorem observers_see_units_of_tick : ∃ s t,
    (Reached ⟨"main"⟩ .standard s ∧ s.runs = 1 ∧
      ∃ o ∈ s.audience.observers, o.Accepted ∧ (s.audience.latest o.id).isSome) ∧
    s.rerun ⟨10 ^ 9⟩ none tick = (.done (.incremental [boxNode, textNode]), t) ∧
    Reached ⟨"main"⟩ .standard t ∧ t.runs = 2 ∧
      ∃ o ∈ t.audience.observers, o.Accepted ∧ ∃ before after,
        t.audience.latest o.id = some (OutputUnit.pack before) ∧
        t.rows = OutputUnit.pack after ∧ SameUnits before after := by
  obtain ⟨g, hsplit, hdone, hticks, hheard, hruns, hheard', hruns'⟩ := exists_split?_watched
  have hstart : watched.start ⟨0⟩ tickSource = (.done (), watched.boxed g) :=
    (if_pos rfl).trans (load_eq_boxed hsplit hdone)
  have hrerun := hticks.rerun_eq
  have hreached : Reached ⟨"main"⟩ .standard (watched.boxed g) := by
    have h : _ → Reached ⟨"main"⟩ .standard (watched.start ⟨0⟩ tickSource).2 :=
      .start ⟨0⟩ tickSource (.attach (fun _ => true) .fresh)
    rw [hstart] at h
    exact h nofun
  have hreached' : Reached ⟨"main"⟩ .standard (watched.boxed g).ticked := by
    have h := hreached.rerun ⟨10 ^ 9⟩ none tick
    rwa [hrerun] at h
  obtain ⟨o, ho, haccepted⟩ := hheard.exists_observer
  obtain ⟨o', ho', haccepted'⟩ := hheard'.exists_observer
  obtain ⟨hsome, -⟩ := observers_see_units_on_display hreached ho haccepted
  obtain ⟨hsome', hrows⟩ := observers_see_units_on_display hreached' ho' haccepted'
  obtain ⟨rows, hlatest⟩ := Option.isSome_iff_exists.1 (hsome' (by rw [hruns']; decide))
  obtain ⟨before, after, rfl, hdisplay, hsame, -⟩ := hrows rows hlatest
  exact ⟨_, _, ⟨hreached, hruns, o, ho, haccepted, hsome (by rw [hruns]; decide)⟩, hrerun, hreached',
    hruns', o', ho', haccepted', before, after, hlatest, hdisplay, hsame⟩

end Session

end ReactiveScript

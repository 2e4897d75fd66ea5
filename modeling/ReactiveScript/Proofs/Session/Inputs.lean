import Mathlib.Data.Option.Basic
import ReactiveScript.Proofs.Memo
import ReactiveScript.Proofs.Session.Request

/-!
# The inputs of a session

Nothing but a rerun touches the inputs, and a rerun stores the values whose form is not the one on
record.  So the record always holds the forms of the inputs, and the form on record of a unit stands
for the value that came last, whether or not that was stored.  Where values with the same form are
the same, it makes no difference what is dropped: a rerun stores its batch.

* `Session.Keeps` — runs leave the inputs alone, and what is on record of them.
* `Session.Recorded` — the record holds the forms of the inputs.
* `Session.keeps_rerun` — a rerun leaves the inputs as they are once it has taken up the changes.
* `SameForms` — two tables of inputs which have forms that stand for the same.
* `Faithful` — values of a unit with the same form are the same.
* `Session.Recorded.inputs_takeUp` — the batch is stored.
-/

set_option autoImplicit false

namespace ReactiveScript

/-! ## Forms of inputs -/

/-- Two forms that stand for the same document. -/
def Json.Agree (i i' : Json) : Prop := ∃ j, i.StandsFor j ∧ i'.StandsFor j

/-- Two tables of inputs that have values for the same units, whose forms agree. -/
def SameForms (inputs inputs' : InputTable) : Prop := ∀ unit, Option.Rel Json.Agree
  ((Table.get? unit inputs).map Value.toJson) ((Table.get? unit inputs').map Value.toJson)

/-- Values of one unit with the same form are the same. -/
def Faithful (entries : List (UnitId × Value)) : Prop :=
  ∀ e ∈ entries, ∀ e' ∈ entries, e'.1 = e.1 → e.2.toJson.same e'.2.toJson = true → e'.2 = e.2

theorem Faithful.mono {entries entries' : List (UnitId × Value)} (h : Faithful entries)
    (hsub : ∀ e ∈ entries', e ∈ entries) : Faithful entries' :=
  fun e he e' he' => h e (hsub e he) e' (hsub e' he')

/-- Units with one value each leave nothing to tell apart. -/
theorem Faithful.of_nodup {entries : List (UnitId × Value)} (h : (Table.keys entries).Nodup) :
    Faithful entries := by
  rintro ⟨unit, v⟩ hv ⟨_, w⟩ hw rfl _
  exact Option.some.inj ((Table.get?_of_mem h hw).symm.trans (Table.get?_of_mem h hv))

/-- The form of a change. -/
def changeForm (change : UnitId × Value) : UnitId × Json := (change.1, change.2.toJson)

/-- A memo holds the forms of inputs. -/
def Memo.Holds (m : Memo) (inputs : InputTable) : Prop :=
  ∀ unit, m.get? unit = (Table.get? unit inputs).map Value.toJson

namespace Memo.Holds

variable {m : Memo} {inputs : InputTable}

theorem put (h : m.Holds inputs) (unit : UnitId) (v : Value) :
    (⟨Table.put unit v.toJson m.forms⟩ : Memo).Holds (Table.put unit v inputs) := by
  intro j
  rw [Memo.get?, Table.get?_put, Table.get?_put]
  split
  · rfl
  · exact h j

/-- A memo that holds the forms of the inputs goes on to do so if what is new is stored. -/
theorem sift (h : m.Holds inputs) (changes : Table UnitId Value) :
    (m.sift changeForm changes).2.Holds (Table.merge inputs (m.sift changeForm changes).1) := by
  induction changes generalizing m inputs with
  | nil => exact h
  | cons change changes ih =>
    rw [sift_cons]
    cases hrecords : m.records change.1 change.2.toJson with
    | true =>
      rw [show m.offer (changeForm change).1 (changeForm change).2 = (false, m) from
        offer_of_records hrecords]
      exact ih h
    | false =>
      have hoffer : m.offer (changeForm change).1 (changeForm change).2
          = (true, ⟨Table.put change.1 change.2.toJson m.forms⟩) :=
        if_neg (Bool.eq_false_iff.1 hrecords)
      rw [hoffer]
      exact ih (h.put change.1 change.2)

/-- Where values with the same form are the same, storing what is new stores everything. -/
theorem merge_sift (h : m.Holds inputs) {changes : Table UnitId Value}
    (hfaithful : Faithful (inputs ++ changes)) :
    Table.merge inputs (m.sift changeForm changes).1 = Table.merge inputs changes := by
  induction changes generalizing m inputs with
  | nil => rfl
  | cons change changes ih =>
    obtain ⟨unit, v⟩ := change
    show _ = Table.merge (Table.put unit v inputs) changes
    rw [sift_cons]
    cases hrecords : m.records unit v.toJson with
    | true =>
      -- The value that is dropped is the one that is stored.
      obtain ⟨form, hform, hsame⟩ := exists_form_of_records hrecords
      obtain ⟨w, hw, rfl⟩ := Option.map_eq_some_iff.1 ((h unit).symm.trans hform)
      obtain rfl : v = w := hfaithful (unit, w) (List.mem_append_left _ (Table.mem_of_get? hw))
        (unit, v) (List.mem_append_right _ List.mem_cons_self) rfl hsame
      rw [show m.offer (changeForm (unit, v)).1 (changeForm (unit, v)).2 = (false, m) from
        offer_of_records hrecords, Table.put_of_get? hw]
      refine ih h (hfaithful.mono fun e he => ?_)
      exact (List.mem_append.1 he).elim (List.mem_append_left _)
        fun he => List.mem_append_right _ (List.mem_cons_of_mem _ he)
    | false =>
      have hoffer : m.offer (changeForm (unit, v)).1 (changeForm (unit, v)).2
          = (true, ⟨Table.put unit v.toJson m.forms⟩) := if_neg (Bool.eq_false_iff.1 hrecords)
      rw [hoffer]
      refine ih (h.put unit v) (hfaithful.mono fun e he => ?_)
      rcases List.mem_append.1 he with he | he
      · rcases Table.mem_of_mem_put he with rfl | he
        · exact List.mem_append_right _ List.mem_cons_self
        · exact List.mem_append_left _ he
      · exact List.mem_append_right _ (List.mem_cons_of_mem _ he)

end Memo.Holds

namespace Session

variable {s s' : Session}

/-! ## What runs leave alone -/

/-- The settings, the text that was loaded and the inputs are left alone, and what is on record of
them. -/
structure Keeps (s s' : Session) : Prop where
  /-- The settings. -/
  settings_eq : s'.settings = s.settings
  /-- The text that was loaded last. -/
  source_eq : s'.source = s.source
  /-- The inputs. -/
  inputs_eq : s'.inputs = s.inputs
  /-- What is on record of the inputs. -/
  inputMemo_eq : s'.inputMemo = s.inputMemo

namespace Keeps

theorem refl (s : Session) : s.Keeps s := ⟨rfl, rfl, rfl, rfl⟩

theorem trans {s'' : Session} (h : s.Keeps s') (h' : s'.Keeps s'') : s.Keeps s'' :=
  ⟨h'.settings_eq.trans h.settings_eq, h'.source_eq.trans h.source_eq,
    h'.inputs_eq.trans h.inputs_eq, h'.inputMemo_eq.trans h.inputMemo_eq⟩

theorem announce (node : Option NodeId) (lines : List String) (s : Session) :
    s.Keeps (s.announce node lines) := by
  obtain ⟨audience, hannounce⟩ := announce_eq node lines s
  rw [hannounce]
  exact ⟨rfl, rfl, rfl, rfl⟩

theorem runWhole (s : Session) : s.Keeps s.runWhole.2 := by
  rw [Session.runWhole]
  split
  · dsimp only
    split
    · exact (announce none _ s).trans ⟨rfl, rfl, rfl, rfl⟩
    · exact (announce none _ s).trans ⟨rfl, rfl, rfl, rfl⟩
  · exact .refl s

theorem runWholeFrom (source : Source) (s : Session) : s.Keeps (s.runWholeFrom source).2 := by
  rw [Session.runWholeFrom]
  split
  · exact ⟨rfl, rfl, rfl, rfl⟩
  · refine Keeps.trans ?_ (runWhole _)
    exact ⟨rfl, rfl, rfl, rfl⟩

theorem runNodes (recompute : Option (List NodeId)) (s : Session) :
    s.Keeps (s.runNodes recompute).2 := by
  rw [Session.runNodes]
  split
  · rename_i r g _
    obtain ⟨audience, happly⟩ := apply_eq r { s with graph := g }
    rw [happly]
    exact ⟨rfl, rfl, rfl, rfl⟩
  · exact ⟨rfl, rfl, rfl, rfl⟩

theorem runCold (s : Session) : s.Keeps s.runCold.2 := by
  rw [Session.runCold]
  split
  · exact runWhole s
  · dsimp only
    split
    · refine Keeps.trans ?_ (runNodes none _)
      exact ⟨rfl, rfl, rfl, rfl⟩
    · split
      · refine Keeps.trans ?_ (runWholeFrom _ _)
        exact ⟨rfl, rfl, rfl, rfl⟩
      · exact ⟨rfl, rfl, rfl, rfl⟩

theorem runAgain (changed : List UnitId) (s : Session) : s.Keeps (s.runAgain changed).2 := by
  rw [Session.runAgain]
  split
  · rw [runAffected]
    dsimp only
    split
    · exact runCold s
    · exact runNodes _ s
  · exact runWhole s

theorem finish (now : Instant) (force : Bool) (s : Session) : s.Keeps (s.finish now force) := by
  obtain ⟨memo, audience, hfinish⟩ := finish_eq now force s
  rw [hfinish]
  exact ⟨rfl, rfl, rfl, rfl⟩

/-- The end of a run that is carried out keeps what the run kept. -/
theorem ending {r : Reply Unit × Session} (h : s.Keeps r.2) (now : Instant) :
    s.Keeps (match r.1 with
      | .done _ => (.done (), r.2.finish now true)
      | _ => r : Reply Unit × Session).2 := by
  obtain ⟨_ | _ | _, t⟩ := r
  · exact h.trans (finish now true t)
  · exact h
  · exact h

/-- Loading a script keeps the inputs. -/
theorem load (now : Instant) (source : Source) (s : Session) :
    ({ s with source := some source } : Session).Keeps (s.load now source).2 := by
  let t : Session := { s.unload with source := some source }
  rw [Session.load]
  dsimp only
  cases t.split? source with
  | some pg =>
    let u : Session := { t with
      program := some pg.1, graph := pg.2, mode := .incremental, state := .running }
    refine ending (Keeps.trans ?_ (runNodes none u)) now
    exact ⟨rfl, rfl, rfl, rfl⟩
  | none =>
    refine ending (Keeps.trans ?_ (runWholeFrom source t)) now
    exact ⟨rfl, rfl, rfl, rfl⟩

end Keeps

/-! ## What reruns take up -/

/-- The record holds the forms of the inputs. -/
def Recorded (s : Session) : Prop := s.inputMemo.Holds s.inputs

theorem Recorded.keep (h : s.Recorded) (hkeeps : s.Keeps s') : s'.Recorded := by
  rw [Recorded, hkeeps.inputs_eq, hkeeps.inputMemo_eq]
  exact h

/-- Loading a script leaves the forms of the inputs on record. -/
theorem Recorded.load (h : s.Recorded) (now : Instant) (source : Source) :
    (s.load now source).2.Recorded :=
  Recorded.keep (s := { s with source := some source }) h (.load now source s)

theorem inputs_store (origin : Option ObserverId) (changes : Table UnitId Value) (s : Session) :
    (changes.foldl (store origin) s).inputs = Table.merge s.inputs changes ∧
      (changes.foldl (store origin) s).inputMemo = s.inputMemo := by
  induction changes generalizing s with
  | nil => exact ⟨rfl, rfl⟩
  | cons change changes ih => exact ih (s.store origin change)

theorem inputs_takeUp_eq (origin : Option ObserverId) (changes : Table UnitId Value) (s : Session) :
    (s.takeUp origin changes).inputs = Table.merge s.inputs (s.accepted changes) ∧
      (s.takeUp origin changes).inputMemo = (s.inputMemo.sift changeForm changes).2 :=
  inputs_store origin (s.accepted changes) _

theorem settings_takeUp (origin : Option ObserverId) (changes : Table UnitId Value) (s : Session) :
    (s.takeUp origin changes).settings = s.settings ∧ (s.takeUp origin changes).source = s.source := by
  obtain ⟨_, _, _, htake, -⟩ := takeUp_eq origin changes s
  rw [htake]
  exact ⟨rfl, rfl⟩

theorem inputs_takeUp_of_not_accepted {origin : Option ObserverId} {changes : Table UnitId Value}
    (haccepted : s.accepted changes = []) : (s.takeUp origin changes).inputs = s.inputs := by
  rw [(inputs_takeUp_eq origin changes s).1, haccepted]
  rfl

/-- A session without debouncing carries out every rerun. -/
theorem isDebounced_eq_false (h : s.settings.debounce.nanos.val = 0) (now : Instant) :
    s.isDebounced now = false := by
  rw [isDebounced, nextRerunAt, if_pos h]
  rfl

/-- **A rerun leaves the inputs as they are once it has taken up the changes.** -/
theorem keeps_rerun_of_running {now : Instant} (hrunning : s.state = .running)
    (hdebounced : s.isDebounced now = false) (origin : Option ObserverId)
    (changes : Table UnitId Value) :
    (s.takeUp origin changes).Keeps (s.rerun now origin changes).2 := by
  by_cases haccepted : s.accepted changes = []
  · obtain ⟨-, -, hnone⟩ := Memo.sift_spec changeForm changes s.inputMemo
    obtain ⟨hsettings, hsource⟩ := settings_takeUp origin changes s
    rw [rerun_of_not_accepted hrunning hdebounced haccepted]
    refine ⟨hsettings.symm, hsource.symm, (inputs_takeUp_of_not_accepted haccepted).symm, ?_⟩
    exact (hnone haccepted).1.symm.trans (inputs_takeUp_eq origin changes s).2.symm
  · rw [rerun_eq hrunning hdebounced haccepted]
    have hagain := Keeps.runAgain (Table.keys (s.accepted changes)) (s.takeUp origin changes)
    generalize (s.takeUp origin changes).runAgain (Table.keys (s.accepted changes)) = r at hagain ⊢
    obtain ⟨_ | _ | _, t⟩ := r
    · exact hagain.trans (.finish now false t)
    · exact hagain
    · exact hagain

/-- A rerun does nothing, or leaves the inputs as they are once it has taken up the changes. -/
theorem keeps_rerun (now : Instant) (origin : Option ObserverId) (changes : Table UnitId Value)
    (s : Session) : (s.rerun now origin changes).2 = s ∨
      (s.takeUp origin changes).Keeps (s.rerun now origin changes).2 := by
  by_cases hrunning : s.state = .running
  · cases hdebounced : s.isDebounced now with
    | true =>
      rw [rerun, if_neg (not_not_intro hrunning), hdebounced, if_pos rfl]
      exact Or.inl rfl
    | false => exact Or.inr (keeps_rerun_of_running hrunning hdebounced origin changes)
  · rw [rerun, if_pos hrunning]
    exact Or.inl rfl

/-- Whatever a rerun takes up, the settings and the text stay. -/
theorem settings_rerun (now : Instant) (origin : Option ObserverId) (changes : Table UnitId Value)
    (s : Session) : (s.rerun now origin changes).2.settings = s.settings ∧
      (s.rerun now origin changes).2.source = s.source := by
  rcases keeps_rerun now origin changes s with heq | hkeeps
  · rw [heq]
    exact ⟨rfl, rfl⟩
  · obtain ⟨hsettings, hsource⟩ := settings_takeUp origin changes s
    exact ⟨hkeeps.settings_eq.trans hsettings, hkeeps.source_eq.trans hsource⟩

theorem Recorded.takeUp (h : s.Recorded) (origin : Option ObserverId)
    (changes : Table UnitId Value) : (s.takeUp origin changes).Recorded := by
  obtain ⟨hinputs, hmemo⟩ := inputs_takeUp_eq origin changes s
  rw [Recorded, hinputs, hmemo]
  exact h.sift changes

/-- The record goes on to hold the forms of the inputs after a rerun. -/
theorem Recorded.rerun (h : s.Recorded) (now : Instant) (origin : Option ObserverId)
    (changes : Table UnitId Value) : (s.rerun now origin changes).2.Recorded := by
  rcases keeps_rerun now origin changes s with heq | hkeeps
  · rw [heq]
    exact h
  · exact (h.takeUp origin changes).keep hkeeps

/-- **Where values with the same form are the same, the batch is stored.** -/
theorem Recorded.inputs_takeUp (h : s.Recorded) (origin : Option ObserverId)
    {changes : Table UnitId Value} (hfaithful : Faithful (s.inputs ++ changes)) :
    (s.takeUp origin changes).inputs = Table.merge s.inputs changes :=
  (inputs_takeUp_eq origin changes s).1.trans (h.merge_sift hfaithful)

/-- After changes have been taken up, what is on record of a unit stands for its new value. -/
theorem exists_form_takeUp (origin : Option ObserverId) {changes : Table UnitId Value}
    (hchanges : (Table.keys changes).Nodup) (s : Session) {unit : UnitId} {v : Value}
    (hv : (unit, v) ∈ changes) :
    ∃ form, (s.takeUp origin changes).inputMemo.get? unit = some form ∧ form.StandsFor v.toJson := by
  obtain ⟨hon, -, -⟩ := Memo.sift_spec changeForm changes s.inputMemo
  obtain ⟨form, hform, ⟨unit', w⟩, hw, heq, hstands⟩ := hon unit (List.mem_map_of_mem hv)
  obtain rfl : unit' = unit := heq
  obtain rfl : w = v := Option.some.inj
    ((Table.get?_of_mem hchanges hw).symm.trans (Table.get?_of_mem hchanges hv))
  exact ⟨form, by rw [(inputs_takeUp_eq origin changes s).2]; exact hform, hstands⟩

/-- What is on record of other units stays. -/
theorem get?_inputMemo_takeUp (origin : Option ObserverId) {changes : Table UnitId Value}
    (s : Session) {unit : UnitId} (hunit : unit ∉ Table.keys changes) :
    (s.takeUp origin changes).inputMemo.get? unit = s.inputMemo.get? unit := by
  obtain ⟨-, hothers, -⟩ := Memo.sift_spec changeForm changes s.inputMemo
  rw [(inputs_takeUp_eq origin changes s).2]
  exact hothers unit hunit

end Session

end ReactiveScript

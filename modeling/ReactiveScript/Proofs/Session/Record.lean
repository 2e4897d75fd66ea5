import ReactiveScript.Proofs.Session.Changes
import ReactiveScript.Proofs.Session.Emissions
import ReactiveScript.Proofs.Session.Inputs
import ReactiveScript.Proofs.Session.Messages

/-!
# The inputs and their record

A session keeps the values of its inputs in one table and their forms in another, to tell whether a
change changes anything.  A rerun writes both, the forms first, before a run that may fail or break
off; loading the script clears what is on record of the units on view, but not this.  If the two
ever came apart, a change could be taken for an old one and be lost for good.  They never do:
whatever a session was asked for, the forms on record are those of the values.

So a rerun has nothing to do exactly if every change has the form of the value that its input has
already, and otherwise it stores the other changes and announces them, whatever becomes of the run
after that.

* `Session.Chronicle.recorded` — the forms on record are those of the inputs.
* `Session.accepted_eq_unrecorded` — a rerun takes up the changes whose forms are not on record.
* `Session.InTurn.filter_isUpdate` — no run announces changes of inputs.
* `Session.record_agrees_with_inputs` — the theorem.
-/

set_option autoImplicit false

namespace ReactiveScript

namespace Session

variable {s t : Session}

/-! ## The record is kept -/

theorem Recorded.mem_ids_iff (h : s.Recorded) (unit : UnitId) :
    unit ∈ s.inputMemo.ids ↔ unit ∈ Table.keys s.inputs := by
  rw [Memo.mem_ids_iff, h unit]
  constructor
  · rintro ⟨form, hform⟩
    obtain ⟨v, hv, -⟩ := Option.map_eq_some_iff.1 hform
    exact Table.mem_keys_of_get? hv
  · intro hunit
    obtain ⟨v, hv⟩ := Table.exists_get?_of_mem_keys hunit
    exact ⟨v.toJson, by rw [hv]; rfl⟩

/-- A command leaves the forms of the inputs on record, even if the work on it breaks off. -/
theorem Recorded.perform (h : s.Recorded) (now : Instant) (c : Command) :
    (s.perform now c).2.Recorded := by
  cases c with
  | start source =>
    show (s.start now source).2.Recorded
    rw [Session.start]
    split
    · exact h.load now source
    · exact h
  | rerun origin changes => exact Recorded.rerun h now origin changes
  | restart =>
    show (s.restart now).2.Recorded
    rw [Session.restart]
    split
    · exact h.load now _
    · exact h
  | stop =>
    show s.stop.2.Recorded
    rw [Session.stop]
    split
    · exact h
    · exact h
  | introspect => exact h

/-- **The forms on record are those of the inputs**, whatever requests a session has carried out. -/
theorem Chronicle.recorded {id : SessionId} {settings : Settings} {calls : List Call}
    {broken : Bool} (h : Chronicle id settings calls broken s) : s.Recorded := by
  induction h with
  | fresh => exact fun _ => rfl
  | attach _ _ ih | detach _ _ ih | hangUp _ _ ih | publish _ ih => exact ih
  | perform now c _ ih => exact ih.perform now c

/-! ## What a rerun takes up -/

/-- Whether the form of a change is the one on record for its unit. -/
def hasOnRecord (s : Session) (change : UnitId × Value) : Bool :=
  s.inputMemo.records change.1 change.2.toJson

/-- The changes whose form is not the one on record. -/
def unrecorded (s : Session) (changes : Table UnitId Value) : Table UnitId Value :=
  changes.filter fun change => !s.hasOnRecord change

section Batch

variable {changes : Table UnitId Value}

/-- **A rerun takes up the changes whose forms are not on record**, if no unit has two of them. -/
theorem accepted_eq_unrecorded (hchanges : (Table.keys changes).Nodup) (s : Session) :
    s.accepted changes = s.unrecorded changes :=
  Memo.sift_eq_filter changeForm hchanges s.inputMemo

theorem accepted_eq_nil_iff (hchanges : (Table.keys changes).Nodup) :
    s.accepted changes = [] ↔ ∀ change ∈ changes, s.hasOnRecord change = true := by
  rw [accepted_eq_unrecorded hchanges, unrecorded, List.filter_eq_nil_iff]
  simp only [Bool.not_eq_true', Bool.not_eq_false]

/-- A rerun says that nothing has changed exactly if it takes nothing up. -/
theorem rerun_eq_unchanged_iff {now : Instant} (hrunning : s.state = .running)
    (hdebounced : s.isDebounced now = false) (origin : Option ObserverId) :
    (s.rerun now origin changes).1 = .done .unchanged ↔ s.accepted changes = [] := by
  constructor
  · intro hunchanged
    by_contra haccepted
    rcases outcome_of_done_rerun hrunning hdebounced haccepted hunchanged with hfull | ⟨_, hsome⟩
    · cases hfull
    · cases hsome
  · intro haccepted
    rw [rerun_of_not_accepted hrunning hdebounced haccepted]

end Batch

end Session

/-! ## Announcements -/

/-- Whether a message announces that an input has changed. -/
def Message.isUpdate : Message → Bool
  | .stateUpdate _ _ => true
  | _ => false

namespace Session

variable {s t : Session} {ms before lines : List (Option ObserverId × Message)}

/-- Printed lines announce no changes. -/
theorem filter_isUpdate_outputs (node : Option NodeId) (printed : List String) :
    (Message.outputs node printed).filter (fun m => m.2.isUpdate) = [] := by
  rw [Message.outputs, List.filter_map, List.map_eq_nil_iff]
  exact List.filter_eq_nil_iff.2 fun _ _ => Bool.false_ne_true

theorem filter_isUpdate_calls (calls : List Call) :
    (calls.flatMap Call.outputLines).filter (fun m => m.2.isUpdate) = [] := by
  rw [List.filter_flatMap]
  exact List.flatMap_eq_nil_iff.2 fun c _ => filter_isUpdate_outputs _ _

theorem filter_isUpdate_againLines (changed : List UnitId) (s : Session) :
    (s.againLines changed).filter (fun m => m.2.isUpdate) = [] := by
  rw [againLines]
  split
  · exact filter_isUpdate_calls _
  · exact filter_isUpdate_outputs _ _
  · rfl

theorem filter_isUpdate_updates (origin : Option ObserverId) (changes : Table UnitId Value) :
    (updates origin changes).filter (fun m => m.2.isUpdate) = updates origin changes := by
  refine List.filter_eq_self.2 fun m hm => ?_
  obtain ⟨change, -, rfl⟩ := List.mem_map.1 hm
  rfl

/-- **A run announces no changes**: those that have been announced are the ones before it. -/
theorem InTurn.filter_isUpdate {α : Type} {rows : List Row} {force : Bool} {reply : Reply α}
    (h : InTurn before lines rows force reply ms)
    (hlines : lines.filter (fun m => m.2.isUpdate) = []) :
    ms.filter (fun m => m.2.isUpdate) = before.filter fun m => m.2.isUpdate := by
  cases h with
  | rows | failed =>
    rw [List.filter_append, List.filter_append, hlines, List.append_nil]
    exact List.append_nil _
  | same =>
    rw [List.filter_append, hlines, List.append_nil]
  | crashed => rfl

/-- The changes that a rerun takes up are announced, and no others, whatever becomes of the run. -/
theorem Loaded.rerun_announces (h : s.Loaded) (hrunning : s.state = .running) {now : Instant}
    (hdebounced : s.isDebounced now = false) (origin : Option ObserverId)
    {changes : Table UnitId Value} (haccepted : s.accepted changes ≠ []) :
    ∃ ms, s.Sends (s.rerun now origin changes).2 ms ∧
      ms.filter (fun m => m.2.isUpdate) = updates origin (s.accepted changes) := by
  obtain ⟨ms, hsends, hturn⟩ := h.rerun_inTurn hrunning now origin changes hdebounced haccepted
  refine ⟨ms, hsends, ?_⟩
  rw [hturn.filter_isUpdate (filter_isUpdate_againLines _ _), filter_isUpdate_updates]

/-! ## The theorem -/

/-- **The record agrees with the inputs.**  Whatever requests a session has carried out, runs that
fail or break off and reruns that are refused included, the units on record are those of the table
of inputs, and the form on record of each is that of its value.

A rerun of a session that is running, outside of the window after the last run, says that nothing
has changed exactly if the form of every change is the one on record; then it leaves everything as
it was.  Otherwise, even if the run fails or breaks off, the changes with other forms are stored and
announced to everybody but the one whom they come from, and no other changes are. -/
theorem record_agrees_with_inputs {id : SessionId} {settings : Settings} {calls : List Call}
    {broken : Bool} (h : Chronicle id settings calls broken s) :
    (∀ unit, unit ∈ s.inputMemo.ids ↔ unit ∈ Table.keys s.inputs) ∧
    (∀ unit v, Table.get? unit s.inputs = some v → s.inputMemo.get? unit = some v.toJson) ∧
    ∀ {now : Instant} {origin : Option ObserverId} {changes : Table UnitId Value}
      {reply : Reply RerunOutcome} {t : Session}, (Table.keys changes).Nodup →
      s.state = .running → s.isDebounced now = false → s.rerun now origin changes = (reply, t) →
      (reply = .done .unchanged ↔ ∀ change ∈ changes, s.hasOnRecord change = true) ∧
      (reply = .done .unchanged → t = s) ∧
      (reply ≠ .done .unchanged →
        t.inputs = Table.merge s.inputs (s.unrecorded changes) ∧
        ∃ ms, s.Sends t ms ∧
          ms.filter (fun m => m.2.isUpdate) = updates origin (s.unrecorded changes)) := by
  have hrecorded := h.recorded
  refine ⟨hrecorded.mem_ids_iff, fun unit v hv => ?_, ?_⟩
  · rw [hrecorded unit, hv]
    rfl
  · intro now origin changes reply t hchanges hrunning hdebounced hrerun
    have hunchanged : reply = .done .unchanged ↔ s.accepted changes = [] := by
      rw [← rerun_eq_unchanged_iff hrunning hdebounced origin, hrerun]
    refine ⟨hunchanged.trans (accepted_eq_nil_iff hchanges), fun hsame => ?_, fun hother => ?_⟩
    · rw [rerun_of_not_accepted hrunning hdebounced (hunchanged.1 hsame)] at hrerun
      exact (congrArg Prod.snd hrerun).symm
    · have hkeeps := keeps_rerun_of_running hrunning hdebounced origin changes
      have hannounces := (h.inOrder.loaded hrunning).rerun_announces hrunning hdebounced origin
        (mt hunchanged.2 hother)
      rw [hrerun] at hkeeps hannounces
      rw [accepted_eq_unrecorded hchanges] at hannounces
      refine ⟨?_, hannounces⟩
      rw [hkeeps.inputs_eq, (inputs_takeUp_eq origin changes s).1,
        accepted_eq_unrecorded hchanges]

/-! ## A box that is ticked twice -/

/-- Once the script of the box has been loaded, the box can be ticked, and nothing is on record. -/
theorem exists_chronicle_ticks : ∃ calls s, Chronicle ⟨"main"⟩ .standard calls false s ∧ s.Ticks ∧
    s.settings = .standard ∧ s.inputs = [] ∧ s.inputMemo = .empty := by
  obtain ⟨g, hsplit, hdone, hticks⟩ := exists_split?_tickSource
  have hkeeps := Keeps.load ⟨0⟩ tickSource untouched
  rw [load_eq_boxed hsplit hdone] at hkeeps
  exact ⟨_, _, chronicle_start_tick hsplit hdone, hticks, hkeeps.settings_eq, hkeeps.inputs_eq,
    hkeeps.inputMemo_eq⟩

/-- A second after the tick the box can be ticked again. -/
theorem Ticks.again (h : s.Ticks) (hsettings : s.settings = .standard)
    (hrerun : s.rerun ⟨10 ^ 9⟩ none tick = (.done (.incremental [boxNode, textNode]), t)) :
    t.state = .running ∧ t.isDebounced ⟨2 * 10 ^ 9⟩ = false := by
  have hafter := (settings_rerun ⟨10 ^ 9⟩ none tick s).1.trans hsettings
  rw [hrerun] at hafter
  obtain rfl : s.ticked = t :=
    congrArg Prod.snd (h.rerun_eq.symm.trans hrerun)
  obtain ⟨-, -, -, -, -, -, -, -, -, -, -, hrunning, -⟩ := h
  obtain ⟨shown, audience, hfinish⟩ := finish_eq ⟨10 ^ 9⟩ false s.afterTick.2
  dsimp only [ticked] at hafter ⊢
  rw [hfinish] at hafter ⊢
  refine ⟨hrunning, ?_⟩
  rw [isDebounced, nextRerunAt, hafter]
  dsimp only
  decide

/-- The theorem applies to a box that is ticked twice: the tick is stored and announced the first
time, and changes nothing the second time. -/
theorem record_agrees_with_inputs_of_tick : ∃ calls s t ms,
    Chronicle ⟨"main"⟩ .standard calls false s ∧
    s.rerun ⟨10 ^ 9⟩ none tick = (.done (.incremental [boxNode, textNode]), t) ∧
    t.inputs = tick ∧ t.inputMemo.get? boxUnit = some (.bool true) ∧ s.Sends t ms ∧
    ms.filter (fun m => m.2.isUpdate) = [(none, .stateUpdate boxUnit (.bool true))] ∧
    t.rerun ⟨2 * 10 ^ 9⟩ none tick = (.done .unchanged, t) := by
  obtain ⟨calls, s, hchronicle, hticks, hsettings, hinputs, hempty⟩ := exists_chronicle_ticks
  obtain ⟨t, hrerun⟩ : ∃ t, s.rerun ⟨10 ^ 9⟩ none tick
      = (.done (.incremental [boxNode, textNode]), t) := ⟨_, hticks.rerun_eq⟩
  have hnodup : (Table.keys tick).Nodup := List.nodup_singleton _
  -- The first time nothing is on record.
  have hnew : s.unrecorded tick = tick := by
    rw [unrecorded]
    simp only [hasOnRecord, hempty]
    rfl
  obtain ⟨-, -, hfirst⟩ := record_agrees_with_inputs hchronicle
  obtain ⟨-, -, hfirst⟩ := hfirst hnodup hticks.2.2.1 hticks.2.2.2.1 hrerun
  obtain ⟨hstored, ms, hsends, hupdates⟩ := hfirst nofun
  rw [hinputs, hnew] at hstored
  rw [hnew] at hupdates
  -- The second time the form of the tick is.
  obtain ⟨broken, hagain⟩ : ∃ broken, Chronicle ⟨"main"⟩ .standard
      (calls ++ s.callsOf ⟨10 ^ 9⟩ (.rerun none tick)) broken (s.rerun ⟨10 ^ 9⟩ none tick).2 :=
    ⟨_, hchronicle.perform ⟨10 ^ 9⟩ (.rerun none tick)⟩
  rw [hrerun] at hagain
  obtain ⟨hrunning, hdebounced⟩ := hticks.again hsettings hrerun
  obtain ⟨-, hforms, hsecond⟩ := record_agrees_with_inputs hagain
  have hform : t.inputMemo.get? boxUnit = some (.bool true) := by
    refine hforms boxUnit (.bool true) ?_
    rw [hstored]
    rfl
  have hknown : ∀ change ∈ tick, t.hasOnRecord change = true := by
    refine List.forall_mem_singleton.2 ?_
    rw [hasOnRecord, Memo.records]
    simp only [hform]
    rfl
  obtain ⟨hunchanged, hsame, -⟩ := hsecond hnodup hrunning hdebounced rfl
  have hreply := hunchanged.2 hknown
  exact ⟨calls, s, t, ms, hchronicle, hrerun, hstored, hform, hsends, hupdates,
    Prod.ext hreply (hsame hreply)⟩

end Session

end ReactiveScript

import ReactiveScript.Proofs.Json
import ReactiveScript.Proofs.Session.Deliveries

/-!
# The list of changes

With the rows on display goes a list of the units that are new or differ from the last time.  It is
computed from what is on record for each unit, and is exact as long as no two units on view have the
same id: when a run has come to its end, the units on record are those on view, with their snapshots;
so the list names the units that were not on view when the last run came to its end, or looked
different then.  What happens in between makes no difference, runs that fail or break off included;
only loading the script starts a new record.

* `Memo.Records` — the units on record are those of a list, with their snapshots.
* `Memo.sift_eq_filter`, `Memo.records_sift_retain` — sifting a list finds the new units in it, and
  then they are on record.
* `Session.Remembers` — the sessions that requests lead to, with the units that were on view when the
  last run came to its end.
* `Session.changes_are_exact` — the theorem.
-/

set_option autoImplicit false

namespace ReactiveScript

open Relation

/-! ## What units look like -/

namespace OutputUnit

variable {u u' : OutputUnit}

/-- Two versions of a unit have the same kind, the same value and the same width, as far as their
documents tell. -/
def looksLike (u u' : OutputUnit) : Bool :=
  u.kind == u'.kind && u.value.toJson.same u'.value.toJson && u.widthForm.same u'.widthForm

/-- Whether a unit is not among some others, or looks different there. -/
def isNew (before : List OutputUnit) (u : OutputUnit) : Bool :=
  !before.any fun b => b.id == u.id && b.looksLike u

/-- Snapshots tell what units look like. -/
theorem same_snapshot (u u' : OutputUnit) : u.snapshot.same u'.snapshot = u.looksLike u' := by
  have hwidth : u.snapshot.same u'.snapshot
      = (u.kind == u'.kind && (u.value.toJson.same u'.value.toJson &&
        (u.widthForm.same u'.widthForm && true))) := rfl
  rw [hwidth, Bool.and_true, ← Bool.and_assoc, looksLike]

theorem same_snapshot_self (u : OutputUnit) : u.snapshot.same u.snapshot = true := by
  have hwidth : u.widthForm.same u.widthForm = true := by
    rw [widthForm]
    split
    · exact Json.same_float_self ‹_›
    · rfl
  rw [same_snapshot, looksLike, Value.same_toJson_self, hwidth, beq_self_eq_true]
  rfl

end OutputUnit

/-! ## What is on record -/

namespace Memo

variable {m : Memo} {before us : List OutputUnit}

/-- The units on record are those of a list, with their snapshots. -/
structure Records (m : Memo) (us : List OutputUnit) : Prop where
  /-- They are the same units. -/
  mem_ids : ∀ id, id ∈ m.ids ↔ id ∈ us.map OutputUnit.id
  /-- Their snapshots are on record. -/
  form : ∀ u ∈ us, ∃ form, m.get? u.id = some form ∧ form.same u.snapshot = true

theorem records_empty : empty.Records [] :=
  ⟨fun id => by simp [ids, empty, Table.keys], List.forall_mem_nil _⟩

/-- The form of a unit is on record if the unit was there and looks the same. -/
theorem Records.records_eq (h : m.Records before) (u : OutputUnit) :
    m.records u.id u.snapshot = !u.isNew before := by
  rw [OutputUnit.isNew, Bool.not_not, Bool.eq_iff_iff, List.any_eq_true]
  constructor
  · intro hrecords
    obtain ⟨form, hform, hsame⟩ := exists_form_of_records hrecords
    obtain ⟨b, hb, hid⟩ := List.mem_map.1 ((h.mem_ids u.id).1 (mem_ids_iff.2 ⟨form, hform⟩))
    obtain ⟨form', hform', hsame'⟩ := h.form b hb
    rw [hid, hform] at hform'
    obtain rfl := Option.some.inj hform'
    refine ⟨b, hb, ?_⟩
    rw [← OutputUnit.same_snapshot, hid, beq_self_eq_true, Bool.true_and]
    exact Json.same_trans (Json.same_comm _ _ ▸ hsame') hsame
  · rintro ⟨b, hb, hlooks⟩
    rw [← OutputUnit.same_snapshot, Bool.and_eq_true, beq_iff_eq] at hlooks
    obtain ⟨form, hform, hsame⟩ := h.form b hb
    rw [records, ← hlooks.1, hform]
    exact Json.same_trans hsame hlooks.2

theorem records_offer_of_ne {id i : UnitId} {j k : Json} (h : i ≠ id) :
    (m.offer id j).2.records i k = m.records i k := by
  rw [records, records, (m.offer_spec id j).2.1 i h]

/-- **Sifting finds the items whose forms are not on record**, if no two have the same id. -/
theorem sift_eq_filter {α : Type} (form : α → UnitId × Json) {as : List α}
    (hnodup : (as.map fun a => (form a).1).Nodup) (m : Memo) :
    (sift form as m).1 = as.filter fun a => !m.records (form a).1 (form a).2 := by
  induction as generalizing m with
  | nil => rfl
  | cons a as ih =>
    obtain ⟨ha, has⟩ := List.nodup_cons.1 hnodup
    -- What is on record for the first item makes no difference for the others.
    have hrest : (as.filter fun b =>
        !(m.offer (form a).1 (form a).2).2.records (form b).1 (form b).2)
          = as.filter fun b => !m.records (form b).1 (form b).2 := by
      refine List.filter_congr fun b hb => ?_
      have hne : (form b).1 ≠ (form a).1 := fun heq => ha (List.mem_map.2 ⟨b, hb, heq⟩)
      rw [records_offer_of_ne hne]
    have hnew : (m.offer (form a).1 (form a).2).1 = !m.records (form a).1 (form a).2 := by
      rw [offer]
      split <;> simp [*]
    rw [sift_cons, ih has, hrest, hnew, List.filter_cons]

/-- **A list that has been sifted is on record**, once all that is not in it has been dropped. -/
theorem records_sift_retain (hnodup : (us.map OutputUnit.id).Nodup) (m : Memo) :
    ((sift formOf us m).2.retain fun id => us.any fun u => u.id == id).2.Records us := by
  obtain ⟨hstands, -⟩ := sift_retain us m
  refine ⟨hstands.mem_ids, fun u hu => ?_⟩
  obtain ⟨form, hform⟩ := mem_ids_iff.1 ((hstands.mem_ids u.id).2 (List.mem_map_of_mem hu))
  obtain ⟨u', hu', hid, hfor⟩ := hstands.exists_unit _ _ hform
  obtain rfl : u' = u := List.inj_on_of_nodup_map hnodup hu' hu hid
  refine ⟨form, hform, ?_⟩
  rcases hfor with rfl | hsame
  · exact OutputUnit.same_snapshot_self u'
  · exact hsame

/-- Nothing is dropped exactly if all units that were on record are still there. -/
theorem retain_sift_eq_zero_iff (h : m.Records before) :
    ((sift formOf us m).2.retain fun id => us.any fun u => u.id == id).1 = 0 ↔
      ∀ b ∈ before, b.id ∈ us.map OutputUnit.id := by
  have hany : ∀ id, (us.any fun u => u.id == id) = true ↔ id ∈ us.map OutputUnit.id := by
    intro id
    rw [List.any_eq_true, List.mem_map]
    simp only [beq_iff_eq]
  obtain ⟨hon, hothers, -⟩ := sift_spec formOf us m
  constructor
  · intro hzero b hb
    obtain ⟨-, hkept⟩ := retain_of_none hzero
    by_contra hgone
    obtain ⟨form, hform, -⟩ := h.form b hb
    refine hgone ((hany _).1 (hkept b.id (mem_ids_iff.2 ⟨form, ?_⟩)))
    exact (hothers b.id hgone).trans hform
  · intro hall
    have hkept : ∀ e ∈ (sift formOf us m).2.forms, (us.any fun u => u.id == e.1) = true := by
      intro e he
      rw [hany]
      by_contra hgone
      obtain ⟨form, hform⟩ := mem_ids_iff.1
        (show e.1 ∈ (sift formOf us m).2.ids from List.mem_map_of_mem he)
      have hold : e.1 ∈ m.ids := mem_ids_iff.2 ⟨form, (hothers e.1 hgone).symm.trans hform⟩
      obtain ⟨b, hb, hid⟩ := List.mem_map.1 ((h.mem_ids e.1).1 hold)
      exact hgone (hid ▸ hall b hb)
    rw [retain]
    dsimp only
    rw [List.filter_eq_self.2 hkept, Nat.sub_self]

end Memo

namespace Session

variable {s s' t : Session} {before : List OutputUnit}

/-! ## The end of a run -/

/-- The units on view. -/
def displayed (s : Session) : List OutputUnit := s.view.units s.graph.order

theorem displayed_finish (now : Instant) (force : Bool) (s : Session) :
    (s.finish now force).displayed = s.displayed := by
  obtain ⟨shown, audience, hfinish⟩ := finish_eq now force s
  rw [hfinish]
  rfl

theorem shown_finish (now : Instant) (force : Bool) (s : Session) :
    (s.finish now force).shown = ((Memo.sift Memo.formOf s.displayed s.shown).2.retain fun id =>
      s.displayed.any fun u => u.id == id).2 := by
  rw [finish]
  dsimp only
  split <;> rfl

/-- **At the end of a run the units on view are on record.** -/
theorem records_finish (now : Instant) (force : Bool)
    (hnodup : ((s.finish now force).displayed.map OutputUnit.id).Nodup) :
    (s.finish now force).shown.Records (s.finish now force).displayed := by
  rw [displayed_finish] at hnodup ⊢
  rw [shown_finish]
  exact Memo.records_sift_retain hnodup s.shown

/-- The ids of the units on view that were not there before, or looked different, in view order. -/
def changedSince (before : List OutputUnit) (s : Session) : List UnitId :=
  (s.displayed.filter (OutputUnit.isNew before)).map OutputUnit.id

theorem changedSince_nil (s : Session) : s.changedSince [] = s.displayed.map OutputUnit.id :=
  congrArg _ (List.filter_eq_self.2 fun _ _ => rfl)

/-- **The end of a run names the units that are new.**  It is announced in any case, or if there are
any, or if one is gone. -/
theorem sends_finish (h : s.shown.Records before) (hnodup : (s.displayed.map OutputUnit.id).Nodup)
    (now : Instant) (force : Bool) :
    s.Sends (s.finish now force)
      (if force = true ∨ s.changedSince before ≠ [] ∨
          ∃ b ∈ before, b.id ∉ s.displayed.map OutputUnit.id then
        [(none, .components (s.finish now force).rows (s.changedSince before))]
      else []) := by
  have hdiffering : s.differing = s.displayed.filter (OutputUnit.isNew before) := by
    rw [differing]
    refine (Memo.sift_eq_filter _ hnodup _).trans (List.filter_congr fun u _ => ?_)
    rw [h.records_eq, Bool.not_not]
  have hgone : s.gone = 0 ↔ ∀ b ∈ before, b.id ∈ s.displayed.map OutputUnit.id :=
    Memo.retain_sift_eq_zero_iff h
  have hsends := Sends.finish now force s
  by_cases hquiet : s.differing = [] ∧ s.gone = 0 ∧ force = false
  · rw [if_pos hquiet] at hsends
    rw [if_neg]
    · exact hsends
    · rw [changedSince, ← hdiffering, hquiet.1, hquiet.2.2]
      have hall := hgone.1 hquiet.2.1
      rintro (hforce | hsome | ⟨b, hb, hnot⟩)
      · cases hforce
      · exact hsome rfl
      · exact hnot (hall b hb)
  · rw [if_neg hquiet] at hsends
    rw [if_pos, changedSince, ← hdiffering]
    · exact hsends
    · by_contra hnone
      obtain ⟨hforce, hnone⟩ := not_or.1 hnone
      obtain ⟨hempty, hall⟩ := not_or.1 hnone
      refine hquiet ⟨?_, hgone.2 fun b hb => ?_, Bool.eq_false_iff.2 hforce⟩
      · rw [hdiffering]
        exact List.map_eq_nil_iff.1 (not_not.1 hempty)
      · by_contra hgone
        exact hall ⟨b, hb, hgone⟩

/-! ## Commands -/

/-- Whether a command loads the script, successfully or not. -/
def loadsNow (c : Command) (s : Session) : Bool :=
  match c with
  | .start _ => s.state == .initial
  | .restart => s.source.isSome
  | _ => false

/-- What is on record before a run: nothing if the script is loaded. -/
def shownBefore (c : Command) (s : Session) : Memo := if s.loadsNow c then .empty else s.shown

/-- The messages have no rows. -/
def RowFree (ms : List (Option ObserverId × Message)) : Prop := ∀ m ∈ ms, m.2.rows? = none

theorem exists_sends_of_quiet (h : s.Quiet t) : ∃ ms, s.Sends t ms ∧ RowFree ms := by
  have haudience := h.audience
  suffices ∀ a, ReflTransGen Audience.Quiet s.audience a →
      ∃ ms, a = s.audience.broadcastAll ms ∧ RowFree ms from this _ haudience
  intro a ha
  induction ha with
  | refl => exact ⟨[], rfl, List.forall_mem_nil _⟩
  | tail _ hstep ih =>
    obtain ⟨ms, rfl, hfree⟩ := ih
    cases hstep with
    | @broadcast skip m hm =>
      refine ⟨ms ++ [(skip, m)], ?_,
        List.forall_mem_append.2 ⟨hfree, List.forall_mem_singleton.2 hm⟩⟩
      rw [Audience.broadcastAll_append]
      rfl

/-- What a command does to the record: it ends with the end of a run, or no run comes to its end; then
the record stays, unless the script is loaded, which clears it. -/
inductive Concludes (s : Session) (now : Instant) (c : Command) : Session → Prop
  /-- A run comes to its end. -/
  | finished {u : Session} {ms : List (Option ObserverId × Message)} :
      u.runs = s.runs → u.shown = s.shownBefore c → s.Sends u ms → RowFree ms →
      Concludes s now c (u.finish now (s.loadsNow c))
  /-- No run comes to its end. -/
  | unfinished {t : Session} : t.runs = s.runs → t.shown = s.shownBefore c → Concludes s now c t

theorem concludes_load {now : Instant} {source : Source} {c : Command}
    (hloads : s.loadsNow c = true) : Concludes s now c (s.load now source).2 := by
  obtain ⟨⟨reply, u⟩, hquiet, -, hload⟩ := exists_load_eq now source s
  have hshown : u.shown = s.shownBefore c := by
    rw [hquiet.shown_eq, shownBefore, hloads]
    rfl
  rw [hload]
  cases reply with
  | done =>
    obtain ⟨ms, hsends, hfree⟩ := exists_sends_of_quiet hquiet
    have hend : Concludes s now c (u.finish now (s.loadsNow c)) :=
      .finished hquiet.runs_eq hshown hsends hfree
    rwa [hloads] at hend
  | refused | crashed => exact .unfinished hquiet.runs_eq hshown

/-- **What a command does to the record.** -/
theorem concludes_perform (now : Instant) (c : Command) (s : Session) :
    Concludes s now c (s.perform now c).2 := by
  have hidle : s.loadsNow c = false → Concludes s now c s := fun hloads =>
    .unfinished rfl (by rw [shownBefore, hloads]; rfl)
  cases c with
  | start source =>
    show Concludes s now _ (s.start now source).2
    rw [start]
    split
    · rename_i hinitial
      exact concludes_load (beq_iff_eq.2 hinitial)
    · rename_i hinitial
      exact hidle (beq_eq_false_iff_ne.2 hinitial)
  | restart =>
    show Concludes s now _ (s.restart now).2
    rw [restart]
    split
    · rename_i source hsource
      exact concludes_load (by rw [loadsNow, hsource]; rfl)
    · rename_i hsource
      exact hidle (by rw [loadsNow, hsource]; rfl)
  | rerun origin changes =>
    show Concludes s now _ (s.rerun now origin changes).2
    rcases exists_rerun_eq now origin changes s with heq | ⟨-, ⟨reply, u⟩, hquiet, -, heq⟩
    · rw [heq]
      exact hidle rfl
    · rw [heq]
      cases reply with
      | done =>
        obtain ⟨ms, hsends, hfree⟩ := exists_sends_of_quiet hquiet
        exact .finished hquiet.runs_eq hquiet.shown_eq hsends hfree
      | refused | crashed => exact .unfinished hquiet.runs_eq hquiet.shown_eq
  | stop =>
    show Concludes s now _ s.stop.2
    rw [stop]
    split
    · exact .unfinished rfl rfl
    · exact hidle rfl
  | introspect => exact hidle rfl

/-! ## Sequences of requests -/

/-- The units that were on view when the last run came to its end, after one more command: if it has
ended a run, those that are on view now; if it has only loaded the script, none. -/
def lastDisplayed (before : List OutputUnit) (now : Instant) (c : Command) (s : Session) :
    List OutputUnit :=
  if (s.perform now c).2.runs = s.runs + 1 then (s.perform now c).2.displayed
  else if s.loadsNow c then []
  else before

/-- The sessions that requests lead to, with the units that were on view when the last run since the
script was loaded came to its end, if there was one. -/
inductive Remembers (id : SessionId) (settings : Settings) : List OutputUnit → Session → Prop
  /-- A session that has not been started. -/
  | fresh : Remembers id settings [] (.fresh id settings)
  /-- An observer is attached. -/
  | attach {before : List OutputUnit} {s : Session} (accepts : Nat → Bool) :
      Remembers id settings before s → Remembers id settings before (s.attach accepts).2
  /-- An observer is detached. -/
  | detach {before : List OutputUnit} {s : Session} (observer : ObserverId) :
      Remembers id settings before s → Remembers id settings before (s.detach observer).2
  /-- The line to an observer breaks down. -/
  | hangUp {before : List OutputUnit} {s : Session} (observer : ObserverId) :
      Remembers id settings before s → Remembers id settings before (s.hangUp observer)
  /-- The graph is published. -/
  | publish {before : List OutputUnit} {s : Session} :
      Remembers id settings before s → Remembers id settings before s.publish
  /-- A command is carried out, refused, or breaks off. -/
  | perform {before : List OutputUnit} {s : Session} (now : Instant) (c : Command) :
      Remembers id settings before s →
      Remembers id settings (s.lastDisplayed before now c) (s.perform now c).2

/-- **What was on view when the last run came to its end is on record**, if no two units had the same
id. -/
theorem Remembers.records {id : SessionId} {settings : Settings} (h : Remembers id settings before s)
    (hbefore : (before.map OutputUnit.id).Nodup) : s.shown.Records before := by
  induction h with
  | fresh => exact Memo.records_empty
  | attach _ _ ih | detach _ _ ih | hangUp _ _ ih | publish _ ih => exact ih hbefore
  | @perform before s now c _ ih =>
    have hconcludes := concludes_perform now c s
    rw [lastDisplayed] at hbefore ⊢
    generalize (s.perform now c).2 = t at hconcludes hbefore ⊢
    cases hconcludes with
    | @finished u ms hruns hshown hsends hfree =>
      have hended : (u.finish now (s.loadsNow c)).runs = s.runs + 1 := by
        obtain ⟨shown, audience, hfinish⟩ := finish_eq now (s.loadsNow c) u
        rw [hfinish, ← hruns]
      rw [if_pos hended] at hbefore ⊢
      exact records_finish now _ hbefore
    | unfinished hruns hshown =>
      rw [if_neg (by omega)] at hbefore ⊢
      rw [hshown, shownBefore]
      split at hbefore
      · rename_i hloads
        rw [if_pos hloads, if_pos hloads]
        exact Memo.records_empty
      · rename_i hloads
        rw [if_neg hloads, if_neg hloads]
        exact ih hbefore

/-- **The list of changes is exact.**  Whatever requests a session has carried out, when a command
ends a run and no two units on view have the same id, then the units on record are those on view,
with their snapshots; the changes are, in view order and without repetition, those units on view that
were not there when the last run since the script was loaded came to its end, or had another kind,
value or width; and after other messages the rows are sent with this list, unless the command is a
rerun and no unit has changed, appeared or disappeared. -/
theorem changes_are_exact {id : SessionId} {settings : Settings} (h : Remembers id settings before s)
    (hbefore : (before.map OutputUnit.id).Nodup) (now : Instant) (c : Command)
    {reply : Reply Answer} (hperform : s.perform now c = (reply, t)) (hends : t.runs = s.runs + 1)
    (hdistinct : (t.displayed.map OutputUnit.id).Nodup) :
    t.shown.Records t.displayed ∧
      (t.changedSince (if s.loadsNow c then [] else before)).Nodup ∧
      ∃ ms, RowFree ms ∧ s.Sends t (ms ++
        if s.loadsNow c = true ∨ t.changedSince (if s.loadsNow c then [] else before) ≠ [] ∨
            ∃ b ∈ (if s.loadsNow c then [] else before), b.id ∉ t.displayed.map OutputUnit.id then
          [(none, .components t.rows (t.changedSince (if s.loadsNow c then [] else before)))]
        else []) := by
  have hconcludes := concludes_perform now c s
  have hnodup : (t.changedSince (if s.loadsNow c then [] else before)).Nodup :=
    hdistinct.sublist (List.filter_sublist.map _)
  rw [hperform] at hconcludes
  dsimp only at hconcludes
  cases hconcludes with
  | unfinished hruns => omega
  | @finished u ms hruns hshown hsends hfree =>
    have hrecords : u.shown.Records (if s.loadsNow c then [] else before) := by
      rw [hshown, shownBefore]
      split
      · exact Memo.records_empty
      · exact h.records hbefore
    have hend := sends_finish hrecords (displayed_finish now (s.loadsNow c) u ▸ hdistinct) now
      (s.loadsNow c)
    refine ⟨records_finish now _ hdistinct, hnodup, ms, hfree, hsends.trans ?_⟩
    rw [changedSince, displayed_finish]
    exact hend

/-! ## A box that is ticked -/

/-- The unit that is the text. -/
def textUnit : UnitId := ⟨"text-2ecd3410"⟩

/-- The box and the text are new at first, and both differ once the box has been ticked. -/
theorem exists_changes_of_tick : ∃ g, watched.split? tickSource = some (tickProgram, g) ∧
    (watched.beforeTick g).1.settle.toOption.isSome ∧ (watched.boxed g).Ticks ∧
    (watched.boxed g).displayed.map OutputUnit.id = [boxUnit, textUnit] ∧
    (watched.boxed g).ticked.displayed.map OutputUnit.id = [boxUnit, textUnit] ∧
    (watched.boxed g).ticked.changedSince (watched.boxed g).displayed = [boxUnit, textUnit] ∧
    (watched.boxed g).runs = 1 ∧ (watched.boxed g).ticked.runs = 2 :=
  exists_split?_of_install watched rfl (by decide +kernel)

/-- The theorem applies to a first run, and applies again to the rerun of a box that is ticked.  Both
units are announced each time, as new ones and as ones that differ. -/
theorem changes_are_exact_of_tick : ∃ s t ms ms',
    watched.perform ⟨0⟩ (.start tickSource) = (.done .done, s) ∧ s.shown.Records s.displayed ∧
    RowFree ms ∧ watched.Sends s (ms ++ [(none, .components s.rows [boxUnit, textUnit])]) ∧
    s.perform ⟨10 ^ 9⟩ (.rerun none tick)
      = (.done (.rerun (.incremental [boxNode, textNode])), t) ∧ t.shown.Records t.displayed ∧
    RowFree ms' ∧ s.Sends t (ms' ++ [(none, .components t.rows [boxUnit, textUnit])]) := by
  obtain ⟨g, hsplit, hdone, hticks, hbox, hticked, hchanged, hruns, hruns'⟩ := exists_changes_of_tick
  have hnodup : [boxUnit, textUnit].Nodup := by decide
  have hstart := perform_start_tick rfl hsplit hdone
  have hrerun : (watched.boxed g).perform ⟨10 ^ 9⟩ (.rerun none tick)
      = (.done (.rerun (.incremental [boxNode, textNode])), (watched.boxed g).ticked) := by
    rw [perform, hticks.rerun_eq]
    rfl
  have hfresh : Remembers ⟨"main"⟩ .standard [] watched := .attach (fun _ => true) .fresh
  have hstarted : Remembers ⟨"main"⟩ .standard (watched.boxed g).displayed (watched.boxed g) := by
    have h := hfresh.perform ⟨0⟩ (.start tickSource)
    rwa [lastDisplayed, hstart, if_pos (by exact hruns)] at h
  set s := watched.boxed g
  obtain ⟨hrecords, -, ms, hfree, hsends⟩ := changes_are_exact hfresh List.nodup_nil ⟨0⟩
    (.start tickSource) hstart hruns (hbox ▸ hnodup)
  obtain ⟨hrecords', -, ms', hfree', hsends'⟩ := changes_are_exact hstarted (hbox ▸ hnodup) ⟨10 ^ 9⟩
    (.rerun none tick) hrerun (by rw [hruns', hruns]) (hticked ▸ hnodup)
  have hloads : watched.loadsNow (.start tickSource) = true := rfl
  have hkeeps : s.loadsNow (.rerun none tick) = false := rfl
  rw [if_pos (Or.inl hloads), if_pos hloads, changedSince_nil, hbox] at hsends
  rw [hkeeps, if_neg Bool.false_ne_true, hchanged, if_pos (Or.inr (Or.inl (by simp)))] at hsends'
  exact ⟨s, s.ticked, ms, ms', hstart, hrecords, hfree, hsends, hrerun, hrecords', hfree', hsends'⟩

end Session

end ReactiveScript

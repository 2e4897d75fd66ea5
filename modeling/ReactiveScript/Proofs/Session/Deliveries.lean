import ReactiveScript.Proofs.Session.Lifecycle

/-!
# What is sent, and who gets it

Messages go out one after another, each to everybody, or to everybody but one.  An observer gets those
that are not kept from it, in this order, up to the first that its line refuses; after that it is no
longer attached and gets nothing more.

* `Observer.hearing` — what an observer gets of some messages.
* `Audience.received_broadcastAll` — that is what it gets, and it stays attached exactly if it gets
  all of them.
* `Session.Sends` — the messages that go out on the way from one session to another, and those that
  the parts of a run send.
-/

set_option autoImplicit false

namespace ReactiveScript

/-! ## What an observer gets -/

namespace Observer

/-- What an observer gets of messages that go out one after another: those that are not kept from it,
up to the first that its line refuses. -/
def hearing (o : Observer) : List (Option ObserverId × Message) → List Message
  | [] => []
  | (skip, m) :: ms =>
    if skip = some o.id then hearing o ms
    else if o.willAccept then m :: hearing o.next ms
    else []

/-- The messages that are not kept from an observer. -/
def addressed (o : Observer) (ms : List (Option ObserverId × Message)) : List Message :=
  (ms.filter fun m => m.1 != some o.id).map Prod.snd

theorem addressed_cons_of_eq {o : Observer} (m : Message)
    (ms : List (Option ObserverId × Message)) :
    o.addressed ((some o.id, m) :: ms) = o.addressed ms := by
  rw [addressed, List.filter_cons_of_neg (by simp), addressed]

theorem addressed_cons_of_ne {o : Observer} {skip : Option ObserverId} (h : skip ≠ some o.id)
    (m : Message) (ms : List (Option ObserverId × Message)) :
    o.addressed ((skip, m) :: ms) = m :: o.addressed ms := by
  rw [addressed, List.filter_cons_of_pos (by simpa using h), List.map_cons, addressed]

end Observer

namespace Audience

variable {a : Audience} {id : ObserverId} {ms ms' : List (Option ObserverId × Message)}

theorem broadcastAll_append (a : Audience) (ms ms' : List (Option ObserverId × Message)) :
    a.broadcastAll (ms ++ ms') = (a.broadcastAll ms).broadcastAll ms' :=
  List.foldl_append

theorem Sound.broadcastAll (h : a.Sound) (ms : List (Option ObserverId × Message)) :
    (a.broadcastAll ms).Sound := by
  induction ms generalizing a with
  | nil => exact h
  | cons m ms ih => exact ih (h.broadcast m.1 m.2)

/-- Who is not attached gets nothing, and does not become attached. -/
theorem received_broadcastAll_of_gone (h : ∀ o ∈ a.observers, o.id ≠ id) :
    (∀ o ∈ (a.broadcastAll ms).observers, o.id ≠ id) ∧
      (a.broadcastAll ms).received id = a.received id := by
  induction ms generalizing a with
  | nil => exact ⟨h, rfl⟩
  | cons m ms ih =>
    have hgone : ∀ o ∈ (a.broadcast m.1 m.2).observers, o.id ≠ id := by
      intro o ho
      obtain ⟨o', ho', hid, -⟩ := exists_of_mem_broadcast ho
      rw [hid]
      exact h o' ho'
    refine ⟨(ih hgone).1, (ih hgone).2.trans ?_⟩
    rw [received, toList_sent_broadcast, List.filter_append, List.map_append, received]
    refine (List.append_right_eq_self).2 (List.map_eq_nil_iff.2 (List.filter_eq_nil_iff.2 ?_))
    intro d hd heq
    obtain ⟨o, ho, rfl⟩ := List.mem_map.1 hd
    exact h o (List.mem_filter.1 ho).1 (eq_of_beq heq)

/-- **An observer gets what is not kept from it, up to the first message that its line refuses.**  It
stays attached exactly if its line refuses none. -/
theorem received_broadcastAll (h : a.Sound) {o : Observer} (ho : o ∈ a.observers) :
    (a.broadcastAll ms).received o.id = a.received o.id ++ o.hearing ms ∧
      ((∃ o' ∈ (a.broadcastAll ms).observers, o'.id = o.id) ↔ o.hearing ms = o.addressed ms) := by
  induction ms generalizing a o with
  | nil => exact ⟨(List.append_nil _).symm, fun _ => rfl, fun _ => ⟨o, ho, rfl⟩⟩
  | cons m ms ih =>
    obtain ⟨skip, m⟩ := m
    have hreceived : (a.broadcast skip m).received o.id
        = a.received o.id ++ if o.hears skip = true then [m] else [] := received_broadcast h ho
    have hsound := h.broadcast skip m
    rw [Observer.hearing]
    show (Audience.received _ ((a.broadcast skip m).broadcastAll ms) = _) ∧ _
    by_cases hskip : skip = some o.id
    · subst hskip
      have hstays : o ∈ (a.broadcast (some o.id) m).observers :=
        List.mem_filterMap.2 ⟨o, ho, if_pos rfl⟩
      have hnot : o.hears (some o.id) = false := by simp [Observer.hears]
      rw [if_pos rfl, Observer.addressed_cons_of_eq]
      obtain ⟨hrest, hattached⟩ := ih hsound hstays
      refine ⟨?_, hattached⟩
      rw [hrest, hreceived, hnot, if_neg Bool.false_ne_true, List.append_nil]
    · rw [if_neg hskip, Observer.addressed_cons_of_ne hskip]
      by_cases haccepts : o.willAccept = true
      · have hstays : o.next ∈ (a.broadcast skip m).observers :=
          List.mem_filterMap.2 ⟨o, ho, by rw [Observer.after, if_neg hskip, if_pos haccepts]⟩
        have hhears : o.hears skip = true := by simp [Observer.hears, hskip, haccepts]
        obtain ⟨hrest, hattached⟩ := ih hsound hstays
        rw [if_pos haccepts, List.cons_inj_right]
        refine ⟨?_, hattached⟩
        show Audience.received o.next.id _ = _
        rw [hrest]
        show Audience.received o.id (a.broadcast skip m) ++ _ = _
        rw [hreceived, if_pos hhears, List.append_assoc, List.singleton_append]
      · -- The observer is dropped, and nobody else has its number.
        have hgone : ∀ o' ∈ (a.broadcast skip m).observers, o'.id ≠ o.id := by
          intro o' ho' hid
          obtain ⟨p, hp, hafter⟩ := List.mem_filterMap.1 ho'
          have hpo : p = o := List.inj_on_of_nodup_map h.nodup hp ho
            ((Observer.id_of_after hafter).symm.trans hid)
          rw [hpo, Observer.after, if_neg hskip, if_neg haccepts] at hafter
          cases hafter
        have hdeaf : o.hears skip = false := by simp [Observer.hears, haccepts]
        rw [if_neg haccepts]
        obtain ⟨hattached, hrest⟩ :
            (∀ o' ∈ ((a.broadcast skip m).broadcastAll ms).observers, o'.id ≠ o.id) ∧
              ((a.broadcast skip m).broadcastAll ms).received o.id
                = (a.broadcast skip m).received o.id := received_broadcastAll_of_gone hgone
        refine ⟨?_, ?_, fun heq => by cases heq⟩
        · rw [hrest, hreceived, hdeaf, if_neg Bool.false_ne_true]
        · rintro ⟨o', ho', hid⟩
          exact absurd hid (hattached o' ho')

end Audience

/-! ## What is sent -/

/-- Printed lines as messages to everybody. -/
def Message.outputs (node : Option NodeId) (lines : List String) :
    List (Option ObserverId × Message) :=
  lines.map fun line => (none, .output line node)

/-- The lines in a report as messages to everybody. -/
def Report.outputLines (r : Report) : List (Option ObserverId × Message) :=
  r.printed.flatMap fun e => Message.outputs (some e.1) e.2

namespace Session

variable {s s' t : Session} {ms ms' : List (Option ObserverId × Message)}

/-- On the way from one session to another these messages went out, one after another. -/
def Sends (s s' : Session) (ms : List (Option ObserverId × Message)) : Prop :=
  s'.audience = s.audience.broadcastAll ms

/-- Changes of inputs as messages to everybody but the one whom they come from. -/
def updates (origin : Option ObserverId) (changes : Table UnitId Value) :
    List (Option ObserverId × Message) :=
  changes.map fun change => (origin, .stateUpdate change.1 change.2)

/-- The units on view whose form is not the one on record. -/
def differing (s : Session) : List OutputUnit :=
  (s.shown.sift (fun u => (u.id, u.snapshot)) (s.view.units s.graph.order)).1

/-- How many units are on record that are not on view. -/
def gone (s : Session) : Nat :=
  ((s.shown.sift (fun u => (u.id, u.snapshot)) (s.view.units s.graph.order)).2.retain fun id =>
    (s.view.units s.graph.order).any fun u => u.id == id).1

namespace Sends

theorem of_audience_eq (h : s'.audience = s.audience) : s.Sends s' [] := h

theorem trans (h : s.Sends t ms) (h' : t.Sends s' ms') : s.Sends s' (ms ++ ms') := by
  rw [Sends, Audience.broadcastAll_append, ← h]
  exact h'

theorem broadcast (skip : Option ObserverId) (m : Message) (s : Session) :
    s.Sends (s.broadcast skip m) [(skip, m)] := rfl

theorem announce (node : Option NodeId) (lines : List String) (s : Session) :
    s.Sends (s.announce node lines) (Message.outputs node lines) := by
  induction lines generalizing s with
  | nil => exact of_audience_eq rfl
  | cons line lines ih => exact (broadcast none (.output line node) s).trans (ih _)

theorem announceAll (printed : List (NodeId × List String)) (s : Session) :
    s.Sends (printed.foldl (fun s (node, lines) => s.announce (some node) lines) s)
      (printed.flatMap fun e => Message.outputs (some e.1) e.2) := by
  induction printed generalizing s with
  | nil => exact of_audience_eq rfl
  | cons e printed ih =>
    rw [List.flatMap_cons]
    exact (announce (some e.1) e.2 s).trans (ih _)

theorem apply (r : Report) (s : Session) : s.Sends (s.apply r) r.outputLines :=
  announceAll r.printed s

theorem store (origin : Option ObserverId) (changes : Table UnitId Value) (s : Session) :
    s.Sends (changes.foldl (Session.store origin) s) (updates origin changes) := by
  induction changes generalizing s with
  | nil => exact of_audience_eq rfl
  | cons change changes ih =>
    have hfirst : s.Sends (Session.store origin s change)
        [(origin, .stateUpdate change.1 change.2)] :=
      broadcast origin _ { s with inputs := Table.put change.1 change.2 s.inputs }
    exact hfirst.trans (ih _)

theorem takeUp (origin : Option ObserverId) (changes : Table UnitId Value) (s : Session) :
    s.Sends (s.takeUp origin changes) (updates origin (s.accepted changes)) :=
  store origin (s.accepted changes)
    { s with inputMemo := (s.inputMemo.sift (fun e => (e.1, e.2.toJson)) changes).2 }

theorem fail {α : Type} (e : ScriptError) (s : Session) :
    s.Sends (s.fail (α := α) e).2 [(none, .failure e.notice)] := rfl

/-- The end of a run sends the rows, unless nothing differs. -/
theorem finish (now : Instant) (force : Bool) (s : Session) :
    s.Sends (s.finish now force)
      (if s.differing = [] ∧ s.gone = 0 ∧ force = false then []
      else [(none, .components (s.finish now force).rows (s.differing.map OutputUnit.id))]) := by
  have hquiet : (s.differing.isEmpty && s.gone == 0 && !force) = true ↔
      s.differing = [] ∧ s.gone = 0 ∧ force = false := by
    simp [and_assoc]
  have hfinish : s.finish now force = if s.differing.isEmpty && s.gone == 0 && !force then _
      else _ := rfl
  by_cases h : s.differing = [] ∧ s.gone = 0 ∧ force = false
  · rw [if_pos h, hfinish, if_pos (hquiet.2 h)]
    exact of_audience_eq rfl
  · rw [if_neg h, hfinish, if_neg (mt hquiet.1 h)]
    rfl

end Sends

end Session

end ReactiveScript

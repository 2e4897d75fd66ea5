import Mathlib.Data.List.Nodup
import Mathlib.Logic.Relation
import ReactiveScript.Audience

/-!
# What observers have been told of the rows

The rows that an observer received last are its picture of what is on display.  Nothing but a message
with rows changes it, and a message with rows that goes out to everybody gives all who stay attached
the same picture.

* `Audience.latest` — the rows that an observer received last.
* `Audience.Each` — something holds of the latest rows of every observer that got all its messages.
* `Each.broadcast_rows`, `Each.of_quiet`, `Each.attach` — what a message, other messages and a new
  observer make of it.
-/

set_option autoImplicit false

namespace ReactiveScript

open Relation

/-- The rows in a message, if it has any. -/
def Message.rows? : Message → Option (List Row)
  | .components rows _ => some rows
  | _ => none

/-- The line to an observer has accepted all that was offered to it. -/
def Observer.Accepted (o : Observer) : Prop := ∀ k < o.offered, o.accepts k = true

namespace Observer

theorem Accepted.of_next {o : Observer} (h : o.next.Accepted) : o.Accepted := fun k hk =>
  h k (Nat.lt_succ_of_lt hk)

theorem id_of_after {skip : Option ObserverId} {o o' : Observer} (h : o.after skip = some o') :
    o'.id = o.id := by
  rw [after] at h
  split at h
  · cases h
    rfl
  · split at h
    · cases h
      rfl
    · cases h

end Observer

namespace Audience

variable {a a' : Audience}

/-- The rows that an observer received last. -/
def latest (a : Audience) (id : ObserverId) : Option (List Row) :=
  ((a.received id).filterMap Message.rows?).getLast?

/-- Numbers of observers are given once. -/
structure Sound (a : Audience) : Prop where
  /-- Observers have different numbers. -/
  nodup : (a.observers.map Observer.id).Nodup
  /-- They have been given. -/
  observer_lt : ∀ o ∈ a.observers, o.id.number < a.next
  /-- So have those of all who received something. -/
  receiver_lt : ∀ d ∈ a.sent.toList, d.receiver.number < a.next

theorem sound_empty : Sound empty := ⟨List.nodup_nil, List.forall_mem_nil _, List.forall_mem_nil _⟩

/-- Something holds of the latest rows of every observer that got all its messages. -/
def Each (P : Option (List Row) → Prop) (a : Audience) : Prop :=
  ∀ o ∈ a.observers, o.Accepted → P (a.latest o.id)

theorem Each.imp {P Q : Option (List Row) → Prop} (h : a.Each P) (himp : ∀ rows, P rows → Q rows) :
    a.Each Q := fun o ho haccepted => himp _ (h o ho haccepted)

/-! ## A message to everybody -/

section Broadcast

variable {skip : Option ObserverId} {m : Message}

theorem ids_broadcast_sublist (skip : Option ObserverId) (m : Message) (a : Audience) :
    ((a.broadcast skip m).observers.map Observer.id).Sublist (a.observers.map Observer.id) := by
  rw [broadcast]
  dsimp only
  induction a.observers with
  | nil => exact List.Sublist.refl _
  | cons o os ih =>
    rw [List.filterMap_cons]
    split
    · exact ih.cons _
    · rename_i o' ho'
      rw [List.map_cons, List.map_cons, Observer.id_of_after ho']
      exact ih.cons_cons _

theorem toList_sent_broadcast (skip : Option ObserverId) (m : Message) (a : Audience) :
    (a.broadcast skip m).sent.toList = a.sent.toList ++
      (a.observers.filter (Observer.hears skip)).map fun o => Delivery.mk o.id m := by
  rw [broadcast]
  exact Array.toList_appendList

theorem Sound.broadcast (h : a.Sound) (skip : Option ObserverId) (m : Message) :
    (a.broadcast skip m).Sound where
  nodup := h.nodup.sublist (ids_broadcast_sublist skip m a)
  observer_lt o ho := by
    obtain ⟨o', ho', hafter⟩ := List.mem_filterMap.1 ho
    rw [Observer.id_of_after hafter]
    exact h.observer_lt o' ho'
  receiver_lt d hd := by
    rw [toList_sent_broadcast, List.mem_append] at hd
    rcases hd with hd | hd
    · exact h.receiver_lt d hd
    · obtain ⟨o, ho, rfl⟩ := List.mem_map.1 hd
      exact h.observer_lt o (List.mem_filter.1 ho).1

/-- Who hears a message has received it after all others. -/
theorem received_broadcast (h : a.Sound) {o : Observer} (ho : o ∈ a.observers) :
    (a.broadcast skip m).received o.id
      = a.received o.id ++ if o.hears skip = true then [m] else [] := by
  have hfilter : ∀ os : List Observer, (os.map Observer.id).Nodup → o ∈ os →
      ((os.filter (Observer.hears skip)).map fun o => Delivery.mk o.id m).filter
        (fun d => d.receiver == o.id) = if o.hears skip = true then [⟨o.id, m⟩] else [] := by
    intro os hos hmem
    induction os with
    | nil => cases hmem
    | cons p os ih =>
      obtain ⟨hp, hos⟩ := List.nodup_cons.1 hos
      rcases List.mem_cons.1 hmem with rfl | hmem
      · have hnone : ((os.filter (Observer.hears skip)).map fun q => Delivery.mk q.id m).filter
            (fun d => d.receiver == o.id) = [] := by
          refine List.filter_eq_nil_iff.2 fun d hd hid => hp ?_
          obtain ⟨q, hq, rfl⟩ := List.mem_map.1 hd
          exact List.mem_map.2 ⟨q, (List.mem_filter.1 hq).1, eq_of_beq hid⟩
        rw [List.filter_cons]
        split
        · rw [List.map_cons, List.filter_cons_of_pos (by simp), hnone]
        · exact hnone
      · have hne : p.id ≠ o.id := fun heq => hp (heq ▸ List.mem_map_of_mem hmem)
        rw [List.filter_cons]
        split
        · rw [List.map_cons, List.filter_cons_of_neg (by simpa using hne)]
          exact ih hos hmem
        · exact ih hos hmem
  rw [received, toList_sent_broadcast, List.filter_append, List.map_append,
    hfilter a.observers h.nodup ho]
  split <;> rfl

/-- Who stays attached was there before, and has got all it was offered if it does so now. -/
theorem exists_of_mem_broadcast {o' : Observer} (ho' : o' ∈ (a.broadcast skip m).observers) :
    ∃ o ∈ a.observers, o'.id = o.id ∧ (o'.Accepted → o.Accepted) ∧
      (skip = none → o.hears skip = true) := by
  obtain ⟨o, ho, hafter⟩ := List.mem_filterMap.1 ho'
  refine ⟨o, ho, Observer.id_of_after hafter, ?_, ?_⟩
  · rw [Observer.after] at hafter
    split at hafter
    · cases hafter
      exact fun h => h
    · split at hafter
      · cases hafter
        exact Observer.Accepted.of_next
      · cases hafter
  · rintro rfl
    rw [Observer.after, if_neg (by simp)] at hafter
    rw [Observer.hears]
    split at hafter
    · rename_i haccept
      simp [haccept]
    · cases hafter

/-- After a message with rows to everybody, those are the latest rows of all. -/
theorem Each.broadcast_rows {P : Option (List Row) → Prop} (h : a.Sound) {rows : List Row}
    (changed : List UnitId) (hrows : P (some rows)) :
    (a.broadcast none (.components rows changed)).Each P := by
  intro o' ho' _
  obtain ⟨o, ho, hid, -, hhears⟩ := exists_of_mem_broadcast ho'
  rw [hid, latest, received_broadcast h ho, if_pos (hhears rfl), List.filterMap_append]
  simpa [Message.rows?] using hrows

/-- A message without rows. -/
inductive Quiet : Audience → Audience → Prop
  /-- It goes to everybody, or to everybody but one. -/
  | broadcast (a : Audience) (skip : Option ObserverId) {m : Message} : m.rows? = none →
      Quiet a (a.broadcast skip m)

theorem Sound.of_quiet (h : a.Sound) (hquiet : ReflTransGen Quiet a a') : a'.Sound := by
  induction hquiet with
  | refl => exact h
  | tail _ hstep ih =>
    cases hstep with
    | broadcast skip hm => exact ih.broadcast skip _

/-- Messages without rows make no difference. -/
theorem Each.of_quiet {P : Option (List Row) → Prop} (h : a.Each P) (hsound : a.Sound)
    (hquiet : ReflTransGen Quiet a a') : a'.Each P := by
  induction hquiet with
  | refl => exact h
  | @tail b c hab hstep ih =>
    cases hstep with
    | broadcast skip hm =>
      intro o' ho' haccepted
      obtain ⟨o, ho, hid, hback, -⟩ := exists_of_mem_broadcast ho'
      have hlatest := ih o ho (hback haccepted)
      rw [hid, latest, received_broadcast (hsound.of_quiet hab) ho, List.filterMap_append]
      rw [latest] at hlatest
      split
      · rwa [List.filterMap_cons_none hm, List.filterMap_nil, List.append_nil]
      · rwa [List.filterMap_nil, List.append_nil]

end Broadcast

/-! ## Observers come and go -/

theorem received_eq_nil (h : a.Sound) {id : ObserverId} (hid : a.next ≤ id.number) :
    a.received id = [] := by
  rw [received, List.map_eq_nil_iff, List.filter_eq_nil_iff]
  intro d hd heq
  have hlt := h.receiver_lt d hd
  rw [eq_of_beq heq] at hlt
  exact absurd hlt (Nat.not_lt.2 hid)

theorem attach_eq (accepts : Nat → Bool) (welcome : Option Message) (a : Audience) :
    ∃ o sent, (a.attach accepts welcome).2 = ⟨a.observers ++ [o], a.next + 1, sent⟩ ∧
      o.id = ⟨a.next⟩ ∧ (∀ id : ObserverId, id ≠ ⟨a.next⟩ →
        Audience.received id ⟨a.observers ++ [o], a.next + 1, sent⟩ = a.received id) ∧
      (∀ d ∈ sent.toList, d ∈ a.sent.toList ∨ d.receiver = ⟨a.next⟩) ∧
      (o.Accepted → Audience.received ⟨a.next⟩ ⟨a.observers ++ [o], a.next + 1, sent⟩
        = a.received ⟨a.next⟩ ++ welcome.toList) := by
  cases welcome with
  | none =>
    refine ⟨⟨⟨a.next⟩, accepts, 0⟩, a.sent, rfl, rfl, fun _ _ => rfl, fun d hd => Or.inl hd, ?_⟩
    intro _
    rw [Option.toList_none, List.append_nil]
    rfl
  | some m =>
    let o : Observer := ⟨⟨a.next⟩, accepts, 0⟩
    refine ⟨o.next, if o.willAccept then a.sent.push ⟨o.id, m⟩ else a.sent, rfl, rfl,
      fun id hid => ?_, fun d hd => ?_, fun haccepted => ?_⟩
    · rw [received, received]
      dsimp only
      split
      · rw [Array.toList_push, List.filter_append, List.filter_cons_of_neg (by simpa using Ne.symm hid),
          List.filter_nil, List.append_nil]
      · rfl
    · split at hd
      · rw [Array.toList_push] at hd
        exact (List.mem_append.1 hd).imp_right fun hd => by rw [List.mem_singleton.1 hd]
      · exact Or.inl hd
    · have haccept : o.willAccept = true := haccepted 0 Nat.one_pos
      rw [received, if_pos haccept, Array.toList_push, List.filter_append,
        List.filter_cons_of_pos (by simp [o]), List.filter_nil, List.map_append]
      rfl

theorem Sound.attach (h : a.Sound) (accepts : Nat → Bool) (welcome : Option Message) :
    (a.attach accepts welcome).2.Sound := by
  obtain ⟨o, sent, heq, hid, -, hsent, -⟩ := attach_eq accepts welcome a
  rw [heq]
  refine ⟨?_, fun o' ho' => ?_, fun d hd => ?_⟩
  · rw [List.map_append, List.nodup_append]
    refine ⟨h.nodup, List.nodup_singleton _, fun x hx y hy hxy => ?_⟩
    obtain ⟨o', ho', rfl⟩ := List.mem_map.1 hx
    have hlt := h.observer_lt o' ho'
    rw [hxy, List.mem_singleton.1 hy, hid] at hlt
    exact absurd hlt (Nat.lt_irrefl _)
  · rcases List.mem_append.1 ho' with ho' | ho'
    · exact Nat.lt_succ_of_lt (h.observer_lt o' ho')
    · rw [List.mem_singleton.1 ho', hid]
      exact Nat.lt_succ_self _
  · rcases hsent d hd with hd | hd
    · exact Nat.lt_succ_of_lt (h.receiver_lt d hd)
    · rw [hd]
      exact Nat.lt_succ_self _

/-- The latest rows of a new observer are those that it is welcomed with. -/
theorem Each.attach {P : Option (List Row) → Prop} (h : a.Each P) (hsound : a.Sound)
    (accepts : Nat → Bool) {welcome : Option Message} (hwelcome : P (welcome.bind Message.rows?)) :
    (a.attach accepts welcome).2.Each P := by
  obtain ⟨o, sent, heq, hid, hothers, -, hself⟩ := attach_eq accepts welcome a
  rw [heq]
  intro o' ho' haccepted
  rcases List.mem_append.1 ho' with ho' | ho'
  · have hne : o'.id ≠ ⟨a.next⟩ := by
      intro hne
      have hlt := hsound.observer_lt o' ho'
      rw [hne] at hlt
      exact absurd hlt (Nat.lt_irrefl _)
    rw [latest, hothers _ hne]
    exact h o' ho' haccepted
  · obtain rfl := List.mem_singleton.1 ho'
    rw [hid, latest, hself haccepted, received_eq_nil hsound (Nat.le_refl _), List.nil_append]
    cases welcome with
    | none => exact hwelcome
    | some m =>
      rw [Option.toList_some, List.filterMap_cons]
      cases hm : m.rows? with
      | none => rwa [Option.bind_some, hm] at hwelcome
      | some rows => rwa [Option.bind_some, hm] at hwelcome

theorem Sound.detach (h : a.Sound) (id : ObserverId) : (a.detach id).2.Sound where
  nodup := h.nodup.sublist (List.filter_sublist.map _)
  observer_lt o ho := h.observer_lt o (List.mem_filter.1 ho).1
  receiver_lt := h.receiver_lt

theorem Each.detach {P : Option (List Row) → Prop} (h : a.Each P) (id : ObserverId) :
    (a.detach id).2.Each P := fun o ho => h o (List.mem_filter.1 ho).1

/-- A line that breaks down leaves its observer with what it has. -/
theorem exists_of_mem_hangUp {id : ObserverId} {o' : Observer} (ho' : o' ∈ (a.hangUp id).observers) :
    ∃ o ∈ a.observers, o'.id = o.id ∧ (o'.Accepted → o.Accepted) := by
  obtain ⟨o, ho, rfl⟩ := List.mem_map.1 ho'
  refine ⟨o, ho, ?_, ?_⟩
  · split <;> rfl
  · split
    · intro haccepted k hk
      cases haccepted k hk
    · exact fun h => h

theorem Sound.hangUp (h : a.Sound) (id : ObserverId) : (a.hangUp id).Sound where
  nodup := by
    have hids : (a.hangUp id).observers.map Observer.id = a.observers.map Observer.id := by
      rw [Audience.hangUp, List.map_map]
      refine List.map_congr_left fun o _ => ?_
      dsimp only [Function.comp_apply]
      split <;> rfl
    rw [hids]
    exact h.nodup
  observer_lt o' ho' := by
    obtain ⟨o, ho, hid, -⟩ := exists_of_mem_hangUp ho'
    rw [hid]
    exact h.observer_lt o ho
  receiver_lt := h.receiver_lt

theorem Each.hangUp {P : Option (List Row) → Prop} (h : a.Each P) (id : ObserverId) :
    (a.hangUp id).Each P := by
  intro o' ho' haccepted
  obtain ⟨o, ho, hid, hback⟩ := exists_of_mem_hangUp ho'
  rw [hid]
  exact h o ho (hback haccepted)

end Audience

end ReactiveScript

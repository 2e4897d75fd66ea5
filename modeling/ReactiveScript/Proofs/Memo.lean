import Mathlib.Data.List.Basic
import ReactiveScript.Memo
import ReactiveScript.Proofs.Table

/-!
# What a memo has on record

Sifting a list records, for each unit in it, the form of one of its versions, unless the form on
record is the same.  So the forms stand for the list: every unit has one, and every form is that of a
unit in the list.  If nothing is new, all units of the list have the forms that are on record.

* `Memo.Stands` — the forms on record stand for a list of units.
* `OutputUnit.Alike` — two units that a single form stands for.
* `Memo.sift_retain` — a list that has been sifted, after what is not in it has been dropped.
-/

set_option autoImplicit false

namespace ReactiveScript

namespace Json

/-- A form on record stands for a document: it is the same, or has been found to be. -/
def StandsFor (form j : Json) : Prop := form = j ∨ form.same j = true

/-- Two documents that a single form stands for. -/
def Alike (i j : Json) : Prop := ∃ form : Json, form.StandsFor i ∧ form.StandsFor j

theorem Alike.refl (j : Json) : j.Alike j := ⟨j, Or.inl rfl, Or.inl rfl⟩

theorem StandsFor.text {form : Json} {s : String} (h : form.StandsFor (.text s)) :
    form = .text s := by
  rcases h with h | h
  · exact h
  · cases form with
    | text t =>
      rw [same] at h
      rw [eq_of_beq h]
    | null | bool | int | float | array | object => cases h

theorem StandsFor.object {form : Json} {k : String} {j : Json} {members : List (String × Json)}
    (h : form.StandsFor (.object ((k, j) :: members))) :
    ∃ i rest, form = .object ((k, i) :: rest) ∧ i.StandsFor j ∧
      (Json.object rest).StandsFor (.object members) := by
  rcases h with rfl | h
  · exact ⟨j, members, rfl, Or.inl rfl, Or.inl rfl⟩
  · cases form with
    | object forms =>
      rw [same] at h
      cases forms with
      | nil => cases h
      | cons e rest =>
        obtain ⟨k', i⟩ := e
        rw [sameMembers, Bool.and_eq_true, Bool.and_eq_true] at h
        obtain ⟨⟨hk, hi⟩, hrest⟩ := h
        refine ⟨i, rest, by rw [eq_of_beq hk], Or.inr hi, Or.inr ?_⟩
        rw [same]
        exact hrest
    | null | bool | int | float | array | text => cases h

theorem Alike.text {s t : String} (h : (Json.text s).Alike (.text t)) : t = s := by
  obtain ⟨form, h, h'⟩ := h
  exact Json.text.inj (h'.text.symm.trans h.text)

/-- Objects that are alike have first members that are alike, and so are the rest of them. -/
theorem Alike.object {k : String} {i j : Json} {is js : List (String × Json)}
    (h : (Json.object ((k, i) :: is)).Alike (.object ((k, j) :: js))) :
    i.Alike j ∧ (Json.object is).Alike (.object js) := by
  obtain ⟨form, h, h'⟩ := h
  obtain ⟨f, rest, rfl, hf, hrest⟩ := h.object
  obtain ⟨f', rest', heq, hf', hrest'⟩ := h'.object
  cases heq
  exact ⟨⟨f, hf, hf'⟩, ⟨_, hrest, hrest'⟩⟩

end Json

namespace OutputUnit

/-- The form of a width in snapshots. -/
def widthForm (u : OutputUnit) : Json := if u.width.isFinite then .float u.width else .null

/-- Two versions of a unit with the same kind, value and width as far as their forms tell. -/
structure Alike (u u' : OutputUnit) : Prop where
  /-- They are versions of one unit. -/
  id_eq : u'.id = u.id
  /-- They have the same kind. -/
  kind_eq : u'.kind = u.kind
  /-- They show the same. -/
  value : u.value.toJson.Alike u'.value.toJson
  /-- They ask for the same share of a row. -/
  width : u.widthForm.Alike u'.widthForm

theorem Alike.refl (u : OutputUnit) : u.Alike u := ⟨rfl, rfl, .refl _, .refl _⟩

/-- Two versions of a unit are alike if their snapshots are. -/
theorem Alike.of_snapshot {u u' : OutputUnit} (hid : u'.id = u.id)
    (h : u.snapshot.Alike u'.snapshot) : u.Alike u' := by
  obtain ⟨hkind, hrest⟩ := h.object
  obtain ⟨hvalue, hrest⟩ := hrest.object
  obtain ⟨hwidth, -⟩ := hrest.object
  exact ⟨hid, hkind.text, hvalue, hwidth⟩

end OutputUnit

namespace Memo

variable {m m' : Memo}

/-- The units that the forms of a memo are for. -/
def ids (m : Memo) : List UnitId := Table.keys m.forms

theorem mem_ids_iff {id : UnitId} : id ∈ m.ids ↔ ∃ form, m.get? id = some form := by
  constructor
  · exact fun h => Table.exists_get?_of_mem_keys h
  · rintro ⟨form, h⟩
    exact Table.mem_keys_of_get? h

/-- The forms on record stand for a list of units. -/
structure Stands (m : Memo) (units : List OutputUnit) : Prop where
  /-- Every unit has a form. -/
  mem_ids : ∀ id, id ∈ m.ids ↔ id ∈ units.map OutputUnit.id
  /-- Every form is that of a unit. -/
  exists_unit : ∀ id form, m.get? id = some form →
    ∃ u ∈ units, u.id = id ∧ form.StandsFor u.snapshot

/-! ## One item -/

theorem offer_of_records {id : UnitId} {j : Json} (h : m.records id j = true) :
    m.offer id j = (false, m) := by
  rw [offer, if_pos h]

theorem exists_form_of_records {id : UnitId} {j : Json} (h : m.records id j = true) :
    ∃ form, m.get? id = some form ∧ form.same j = true := by
  rw [records] at h
  split at h
  · exact ⟨_, ‹_›, h⟩
  · cases h

/-- After a form has been offered, the form on record stands for it, and those of other units are as
they were. -/
theorem offer_spec (m : Memo) (id : UnitId) (j : Json) :
    (∃ form, (m.offer id j).2.get? id = some form ∧ form.StandsFor j) ∧
      (∀ i, i ≠ id → (m.offer id j).2.get? i = m.get? i) ∧
      ((m.offer id j).1 = false → (m.offer id j).2 = m ∧ m.records id j = true) := by
  rw [offer]
  split
  · rename_i h
    obtain ⟨form, hform, hsame⟩ := exists_form_of_records h
    exact ⟨⟨form, hform, Or.inr hsame⟩, fun _ _ => rfl, fun _ => ⟨rfl, h⟩⟩
  · refine ⟨⟨j, ?_, Or.inl rfl⟩, fun i hi => ?_, fun h => by cases h⟩
    · rw [get?, Table.get?_put, if_pos rfl]
    · rw [get?, Table.get?_put, if_neg (Ne.symm hi), get?]

/-! ## A list of items -/

/-- The form of a unit on display. -/
def formOf (u : OutputUnit) : UnitId × Json := (u.id, u.snapshot)

theorem sift_cons {α : Type} (form : α → UnitId × Json) (a : α) (as : List α) (m : Memo) :
    sift form (a :: as) m
      = (if (m.offer (form a).1 (form a).2).1 then
            a :: (sift form as (m.offer (form a).1 (form a).2).2).1
          else (sift form as (m.offer (form a).1 (form a).2).2).1,
        (sift form as (m.offer (form a).1 (form a).2).2).2) := rfl

/-- What has been sifted is on record. -/
theorem sift_spec {α : Type} (form : α → UnitId × Json) (as : List α) (m : Memo) :
    (∀ id ∈ as.map fun a => (form a).1, ∃ f, (sift form as m).2.get? id = some f ∧
      ∃ a ∈ as, (form a).1 = id ∧ f.StandsFor (form a).2) ∧
      (∀ id, id ∉ (as.map fun a => (form a).1) → (sift form as m).2.get? id = m.get? id) ∧
      ((sift form as m).1 = [] → (sift form as m).2 = m ∧
        ∀ a ∈ as, m.records (form a).1 (form a).2 = true) := by
  induction as generalizing m with
  | nil => exact ⟨List.forall_mem_nil _, fun _ _ => rfl, fun _ => ⟨rfl, List.forall_mem_nil _⟩⟩
  | cons a as ih =>
    obtain ⟨⟨f, hf, hstands⟩, hothers, hold⟩ := m.offer_spec (form a).1 (form a).2
    obtain ⟨hrest, hkept, hnone⟩ := ih (m.offer (form a).1 (form a).2).2
    rw [sift_cons]
    refine ⟨fun id hid => ?_, fun id hid => ?_, fun hempty => ?_⟩
    · by_cases hmem : id ∈ as.map fun a => (form a).1
      · obtain ⟨f, hf, a', ha', heq⟩ := hrest id hmem
        exact ⟨f, hf, a', List.mem_cons_of_mem _ ha', heq⟩
      · obtain rfl : id = (form a).1 := (List.mem_cons.1 hid).resolve_right hmem
        exact ⟨f, (hkept _ hmem).trans hf, a, List.mem_cons_self, rfl, hstands⟩
    · obtain ⟨hne, hmem⟩ := not_or.1 (mt List.mem_cons.2 hid)
      exact (hkept id hmem).trans (hothers id hne)
    · dsimp only at hempty ⊢
      split at hempty
      · cases hempty
      · rename_i hfalse
        obtain ⟨hsame, hrecords⟩ := hold (Bool.eq_false_iff.2 hfalse)
        obtain ⟨hsame', hrecords'⟩ := hnone hempty
        rw [hsame] at hsame' hrecords'
        rw [hsame]
        exact ⟨hsame', List.forall_mem_cons.2 ⟨hrecords, hrecords'⟩⟩

theorem get?_retain (keep : UnitId → Bool) (m : Memo) (id : UnitId) :
    (m.retain keep).2.get? id = if keep id then m.get? id else none := by
  rw [retain, get?, get?]
  dsimp only
  induction m.forms with
  | nil => split <;> rfl
  | cons e forms ih =>
    obtain ⟨i, form⟩ := e
    by_cases hkeep : keep i = true
    · rw [List.filter_cons, if_pos hkeep, Table.get?, Table.get?]
      split
      · rename_i heq
        rw [← heq, if_pos hkeep]
      · exact ih
    · rw [List.filter_cons, if_neg hkeep, ih, Table.get?]
      split
      · rename_i hid
        rw [if_neg]
        rintro rfl
        exact hkeep hid
      · rfl

theorem retain_of_none {keep : UnitId → Bool} (h : (m.retain keep).1 = 0) :
    (m.retain keep).2 = m ∧ ∀ id ∈ m.ids, keep id = true := by
  have hlength : m.forms.length ≤ (m.forms.filter fun e => keep e.1).length :=
    Nat.le_of_sub_eq_zero h
  have hfilter : (m.forms.filter fun e => keep e.1) = m.forms :=
    List.filter_sublist.eq_of_length_le hlength
  refine ⟨?_, fun id hid => ?_⟩
  · rw [retain, hfilter]
  · obtain ⟨e, he, rfl⟩ := List.mem_map.1 hid
    exact List.filter_eq_self.1 hfilter e he

/-- **What is on record after a list has been sifted** and all that is not in it has been dropped
stands for the list.  If nothing was new and nothing was dropped, it is what was on record before,
and it stands for every unit of the list. -/
theorem sift_retain (us : List OutputUnit) (m : Memo) :
    ((sift formOf us m).2.retain fun id => us.any fun u => u.id == id).2.Stands us ∧
      ((sift formOf us m).1 = [] →
        ((sift formOf us m).2.retain fun id => us.any fun u => u.id == id).1 = 0 →
        ((sift formOf us m).2.retain fun id => us.any fun u => u.id == id).2 = m ∧
          ∀ u ∈ us, ∃ form, m.get? u.id = some form ∧ form.StandsFor u.snapshot) := by
  have hany : ∀ id, (us.any fun u => u.id == id) = true ↔ id ∈ us.map OutputUnit.id := by
    intro id
    rw [List.any_eq_true, List.mem_map]
    simp only [beq_iff_eq]
  obtain ⟨hon, -, hnone⟩ := sift_spec formOf us m
  refine ⟨⟨fun id => ?_, fun id form hform => ?_⟩, fun hnew hdropped => ?_⟩
  · rw [mem_ids_iff, get?_retain]
    constructor
    · rintro ⟨form, hform⟩
      split at hform
      · rename_i hkeep
        exact (hany id).1 hkeep
      · cases hform
    · intro hid
      obtain ⟨form, hform, -⟩ := hon id hid
      exact ⟨form, by rw [if_pos ((hany id).2 hid), hform]⟩
  · rw [get?_retain] at hform
    split at hform
    · rename_i hkeep
      obtain ⟨form', hform', hunit⟩ := hon id ((hany id).1 hkeep)
      rw [hform] at hform'
      cases hform'
      exact hunit
    · cases hform
  · obtain ⟨hsame, hrecords⟩ := hnone hnew
    obtain ⟨hretained, -⟩ := retain_of_none hdropped
    refine ⟨hretained.trans hsame, fun u hu => ?_⟩
    obtain ⟨form, hform, hstands⟩ := exists_form_of_records (hrecords u hu)
    exact ⟨form, hform, Or.inr hstands⟩

end Memo

end ReactiveScript

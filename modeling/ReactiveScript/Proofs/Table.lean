import Mathlib.Data.List.Basic
import ReactiveScript.Table

/-!
# Look-up in tables

`Table.get?` is the view through which tables are reasoned about: this file says what storing,
dropping and keeping entries does to it and to the list of keys.
-/

set_option autoImplicit false

namespace ReactiveScript

namespace Table

variable {κ α : Type} [DecidableEq κ]

theorem get?_eq_none_iff {t : Table κ α} {k : κ} : get? k t = none ↔ k ∉ keys t := by
  induction t with
  | nil => simp [get?, keys]
  | cons e t ih =>
    obtain ⟨j, a⟩ := e
    by_cases hj : j = k
    · simp [get?, keys, hj]
    · simpa [get?, keys, hj, Ne.symm hj] using ih

theorem exists_get?_of_mem_keys {t : Table κ α} {k : κ} (h : k ∈ keys t) :
    ∃ a, get? k t = some a := by
  cases ha : get? k t with
  | none => exact absurd h (get?_eq_none_iff.1 ha)
  | some a => exact ⟨a, rfl⟩

theorem has_iff {t : Table κ α} {k : κ} : has k t = true ↔ k ∈ keys t := by
  rw [has]
  cases ha : get? k t with
  | none => simpa using get?_eq_none_iff.1 ha
  | some a => simpa using mem_keys_of_get? ha

theorem keys_put_of_mem {t : Table κ α} {k : κ} {a : α} (h : k ∈ keys t) :
    keys (put k a t) = keys t := by
  induction t with
  | nil => cases h
  | cons e t ih =>
    obtain ⟨j, b⟩ := e
    by_cases hj : j = k
    · simp [put, hj, keys]
    · have hk : k ∈ keys t := by simpa [keys, Ne.symm hj] using h
      simpa [put, hj, keys] using ih hk

theorem put_of_not_mem {t : Table κ α} {k : κ} {a : α} (h : k ∉ keys t) :
    put k a t = t ++ [(k, a)] := by
  induction t with
  | nil => rfl
  | cons e t ih =>
    obtain ⟨j, b⟩ := e
    obtain ⟨hj, ht⟩ := not_or.1 (mt List.mem_cons.2 h)
    rw [put, if_neg (Ne.symm hj), ih ht]
    rfl

theorem keys_put_of_not_mem {t : Table κ α} {k : κ} {a : α} (h : k ∉ keys t) :
    keys (put k a t) = keys t ++ [k] := by
  rw [put_of_not_mem h, keys, List.map_append]
  rfl

theorem nodup_keys_put {t : Table κ α} (h : (keys t).Nodup) (k : κ) (a : α) :
    (keys (put k a t)).Nodup := by
  by_cases hk : k ∈ keys t
  · rwa [keys_put_of_mem hk]
  · rw [keys_put_of_not_mem hk, List.nodup_append]
    refine ⟨h, by simp, fun i hi j hj => ?_⟩
    rw [List.mem_singleton.1 hj]
    exact fun heq => hk (heq ▸ hi)

@[simp] theorem mem_keys_put {t : Table κ α} {k j : κ} {a : α} :
    j ∈ keys (put k a t) ↔ j = k ∨ j ∈ keys t := by
  by_cases hk : k ∈ keys t
  · rw [keys_put_of_mem hk]
    exact ⟨Or.inr, fun h => h.elim (fun heq => heq ▸ hk) fun h => h⟩
  · rw [keys_put_of_not_mem hk, List.mem_append, List.mem_singleton]
    exact or_comm

theorem get?_erase {t : Table κ α} (h : (keys t).Nodup) (k j : κ) :
    get? j (erase k t) = if k = j then none else get? j t := by
  induction t with
  | nil => simp [erase, get?]
  | cons e t ih =>
    obtain ⟨i, b⟩ := e
    obtain ⟨hi, ht⟩ : i ∉ keys t ∧ (keys t).Nodup := by simpa [keys] using h
    by_cases hik : i = k
    · subst hik
      rw [erase, if_pos rfl]
      split
      · rename_i hij
        subst hij
        exact get?_eq_none_iff.2 hi
      · rename_i hij
        rw [get?, if_neg hij]
    · rw [erase, if_neg hik, get?, ih ht, get?]
      by_cases hij : i = j
      · subst hij
        simp [Ne.symm hik]
      · simp [hij]

theorem get?_append (t t' : Table κ α) (k : κ) : get? k (t ++ t') = (get? k t).or (get? k t') := by
  induction t with
  | nil => rfl
  | cons e t ih =>
    obtain ⟨j, a⟩ := e
    by_cases hj : j = k
    · simp [get?, hj]
    · simpa [get?, hj] using ih

theorem keys_erase_sublist (t : Table κ α) (k : κ) : (keys (erase k t)).Sublist (keys t) := by
  induction t with
  | nil => exact List.Sublist.refl _
  | cons e t ih =>
    obtain ⟨j, b⟩ := e
    rw [erase]
    split
    · exact List.sublist_cons_self _ _
    · exact List.Sublist.cons_cons _ ih

theorem mem_of_get? {t : Table κ α} {k : κ} {a : α} (h : get? k t = some a) : (k, a) ∈ t := by
  induction t with
  | nil => cases h
  | cons e t ih =>
    obtain ⟨j, b⟩ := e
    rw [get?] at h
    split at h
    · rename_i hj
      cases h
      exact hj ▸ List.mem_cons_self
    · exact List.mem_cons_of_mem _ (ih h)

theorem get?_of_mem {t : Table κ α} (h : (keys t).Nodup) {k : κ} {a : α} (ha : (k, a) ∈ t) :
    get? k t = some a := by
  induction t with
  | nil => cases ha
  | cons e t ih =>
    obtain ⟨j, b⟩ := e
    obtain ⟨hj, ht⟩ := List.nodup_cons.1 h
    rcases List.mem_cons.1 ha with heq | ha
    · cases heq
      rw [get?, if_pos rfl]
    · have hk : k ∈ keys t := List.mem_map_of_mem ha
      rw [get?, if_neg fun heq : j = k => hj (heq ▸ hk)]
      exact ih ht ha

/-! ## Storing twice -/

theorem put_of_get? {t : Table κ α} {k : κ} {a : α} (h : get? k t = some a) : put k a t = t := by
  induction t with
  | nil => cases h
  | cons e t ih =>
    obtain ⟨j, b⟩ := e
    rw [get?] at h
    rw [put]
    split at h
    · rename_i hj
      cases h
      rw [if_pos hj, hj]
    · rename_i hj
      rw [if_neg hj, ih h]

/-- A change that keeps the value of a key keeps the table. -/
theorem update_of_get? {t : Table κ α} {k : κ} {a : α} {f : α → α} (h : get? k t = some a)
    (hf : f a = a) : update k f t = t := by
  induction t with
  | nil => cases h
  | cons e t ih =>
    obtain ⟨j, b⟩ := e
    rw [get?] at h
    rw [update]
    split at h
    · cases h
      rw [if_pos ‹_›, hf]
    · rw [if_neg ‹_›, ih h]

theorem put_put (t : Table κ α) (k : κ) (a b : α) : put k a (put k b t) = put k a t := by
  induction t with
  | nil => simp [put]
  | cons e t ih =>
    obtain ⟨j, c⟩ := e
    by_cases hj : j = k
    · simp [put, hj]
    · simp [put, hj, ih]

/-- What is stored under a known key does not depend on when it is stored. -/
theorem put_comm {t : Table κ α} {k j : κ} (hk : k ∈ keys t) (hj : j ≠ k) (a b : α) :
    put j b (put k a t) = put k a (put j b t) := by
  induction t with
  | nil => cases hk
  | cons e t ih =>
    obtain ⟨i, c⟩ := e
    by_cases hi : i = k
    · simp [put, hi, Ne.symm hj]
    · have hk : k ∈ keys t := by simpa [keys, Ne.symm hi] using hk
      by_cases hij : i = j
      · simp [put, hij, hj]
      · simp [put, hi, hij, ih hk]

theorem mem_of_mem_put {t : Table κ α} {k : κ} {a : α} {e : κ × α} (h : e ∈ put k a t) :
    e = (k, a) ∨ e ∈ t := by
  induction t with
  | nil => exact Or.inl (List.mem_singleton.1 h)
  | cons e' t ih =>
    obtain ⟨j, b⟩ := e'
    rw [put] at h
    split at h
    · exact (List.mem_cons.1 h).imp_right (List.mem_cons_of_mem _)
    · rcases List.mem_cons.1 h with rfl | h
      · exact Or.inr List.mem_cons_self
      · exact (ih h).imp_right (List.mem_cons_of_mem _)

/-! ## Tables from lists -/

/-- Of several entries for a key the last one counts. -/
theorem get?_merge (t : Table κ α) (more : List (κ × α)) (k : κ) :
    get? k (merge t more) = (get? k more.reverse).or (get? k t) := by
  induction more generalizing t with
  | nil => rfl
  | cons e more ih =>
    obtain ⟨j, a⟩ := e
    have hstep : merge t ((j, a) :: more) = merge (put j a t) more := rfl
    rw [hstep, ih, List.reverse_cons, get?_append, get?_put, Option.or_assoc, get?, get?]
    split <;> rfl

theorem merge_append (t : Table κ α) (more more' : List (κ × α)) :
    merge t (more ++ more') = merge (merge t more) more' := List.foldl_append

theorem mem_of_mem_merge {t more : Table κ α} {e : κ × α} (h : e ∈ merge t more) :
    e ∈ t ∨ e ∈ more := by
  induction more generalizing t with
  | nil => exact Or.inl h
  | cons e' more ih =>
    rcases ih (t := put e'.1 e'.2 t) h with h | h
    · rcases mem_of_mem_put h with rfl | h
      · exact Or.inr List.mem_cons_self
      · exact Or.inl h
    · exact Or.inr (List.mem_cons_of_mem _ h)

theorem mem_keys_merge {t more : Table κ α} {k : κ} :
    k ∈ keys (merge t more) ↔ k ∈ keys t ∨ k ∈ keys more := by
  induction more generalizing t with
  | nil => simp [merge, keys]
  | cons e more ih =>
    obtain ⟨j, a⟩ := e
    have hkeys : k ∈ keys ((j, a) :: more) ↔ k = j ∨ k ∈ keys more := List.mem_cons
    refine (ih (t := put j a t)).trans ?_
    rw [mem_keys_put, hkeys, or_assoc, or_left_comm]

theorem nodup_keys_merge {t : Table κ α} (h : (keys t).Nodup) (more : List (κ × α)) :
    (keys (merge t more)).Nodup := by
  induction more generalizing t with
  | nil => exact h
  | cons e more ih => exact ih (nodup_keys_put h e.1 e.2)

/-- What is stored under a known key can be stored after others. -/
theorem merge_put_left {t : Table κ α} {k : κ} (hk : k ∈ keys t) {more : List (κ × α)}
    (hmore : k ∉ keys more) (a : α) : merge (put k a t) more = put k a (merge t more) := by
  induction more generalizing t with
  | nil => rfl
  | cons e more ih =>
    obtain ⟨j, b⟩ := e
    obtain ⟨hj, hmore⟩ := not_or.1 (mt List.mem_cons.2 hmore)
    show merge (put j b (put k a t)) more = put k a (merge (put j b t) more)
    rw [put_comm hk (Ne.symm hj), ih (mem_keys_put.2 (Or.inr hk)) hmore]

theorem merge_put_right (t : Table κ α) {more : Table κ α} (hmore : (keys more).Nodup) (k : κ)
    (a : α) : merge t (put k a more) = put k a (merge t more) := by
  induction more generalizing t with
  | nil => rfl
  | cons e more ih =>
    obtain ⟨j, b⟩ := e
    obtain ⟨hj, hmore⟩ := List.nodup_cons.1 hmore
    by_cases hjk : j = k
    · subst hjk
      rw [put, if_pos rfl]
      show merge (put j a t) more = put j a (merge (put j b t) more)
      rw [← merge_put_left (mem_keys_put.2 (Or.inl rfl)) hj, put_put]
    · rw [put, if_neg hjk]
      exact ih (put j b t) hmore

/-- **Storing entries and then others is storing them all**, if no two of the first have the same
key. -/
theorem merge_merge (t : Table κ α) {more : Table κ α} (hmore : (keys more).Nodup)
    (more' : List (κ × α)) : merge (merge t more) more' = merge t (merge more more') := by
  induction more' generalizing more with
  | nil => rfl
  | cons e more' ih =>
    show merge (put e.1 e.2 (merge t more)) more' = merge t (merge (put e.1 e.2 more) more')
    rw [← merge_put_right t hmore, ih (nodup_keys_put hmore _ _)]

/-- If no two entries have the same key, each of them counts. -/
theorem get?_merge_of_mem {t more : Table κ α} (hmore : (keys more).Nodup) {k : κ} {a : α}
    (ha : (k, a) ∈ more) : get? k (merge t more) = some a := by
  have hreverse : (keys more.reverse).Nodup := by
    rw [keys, List.map_reverse]
    exact List.pairwise_reverse.2 (hmore.imp Ne.symm)
  rw [get?_merge, get?_of_mem hreverse (List.mem_reverse.2 ha)]
  rfl

theorem get?_merge_of_not_mem {t more : Table κ α} {k : κ} (hk : k ∉ keys more) :
    get? k (merge t more) = get? k t := by
  rw [get?_merge, get?_eq_none_iff.2 (by rwa [keys, List.map_reverse, List.mem_reverse])]
  rfl

theorem get?_ofList (entries : List (κ × α)) (k : κ) :
    get? k (ofList entries) = get? k entries.reverse := by
  rw [ofList, get?_merge]
  exact Option.or_none

theorem get?_ofList_of_mem {entries : List (κ × α)} (h : (keys entries).Nodup) {k : κ} {a : α}
    (ha : (k, a) ∈ entries) : get? k (ofList entries) = some a := get?_merge_of_mem h ha

/-- Entries with different keys make a table as they are. -/
theorem ofList_of_nodup {entries : List (κ × α)} (h : (keys entries).Nodup) :
    ofList entries = entries := by
  have hfold : ∀ entries done : List (κ × α), (keys (done ++ entries)).Nodup →
      merge done entries = done ++ entries := by
    intro entries
    induction entries with
    | nil => exact fun done _ => (List.append_nil done).symm
    | cons e entries ih =>
      intro done h
      have hkeys : e.1 ∉ keys done := by
        intro hmem
        rw [keys, List.map_append] at h
        exact (List.nodup_append.1 h).2.2 _ hmem _ List.mem_cons_self rfl
      show merge (put e.1 e.2 done) entries = done ++ e :: entries
      rw [put_of_not_mem hkeys, ih _ (by rwa [List.append_assoc]), List.append_assoc]
      rfl
  exact hfold entries [] h

theorem mem_of_get?_ofList {entries : List (κ × α)} {k : κ} {a : α}
    (h : get? k (ofList entries) = some a) : (k, a) ∈ entries := by
  rw [get?_ofList] at h
  exact List.mem_reverse.1 (mem_of_get? h)

theorem mem_keys_ofList {entries : List (κ × α)} {k : κ} :
    k ∈ keys (ofList entries) ↔ k ∈ keys entries := by
  rw [← not_iff_not, ← get?_eq_none_iff, get?_ofList, get?_eq_none_iff, keys, keys,
    List.map_reverse, List.mem_reverse]

end Table

end ReactiveScript

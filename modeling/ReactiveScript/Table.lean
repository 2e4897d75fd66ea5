/-!
# Insertion-ordered tables

A `Table` maps keys to values and remembers the order in which its keys first came.  Storing under
a key that is already there changes its value and not its place.  It is what scripts see as a dict,
and what the engine keeps input values, stored results, producers and segments in.

* `Table.get?`, `Table.put`, `Table.erase` — look up, store, drop.
* `Table.get?_put` — a look-up after a store: the new value under its key, and what was there
  before under every other.
* `Table.merge` — store all entries of another table, in their order.
-/

set_option autoImplicit false

namespace ReactiveScript

/-- An insertion-ordered table: its entries, first-stored key first. -/
abbrev Table (κ α : Type) : Type := List (κ × α)

namespace Table

variable {κ α : Type} [DecidableEq κ]

/-- The value stored under a key. -/
def get? (k : κ) : Table κ α → Option α
  | [] => none
  | (j, a) :: rest => if j = k then some a else get? k rest

/-- Store a value: in place if the key is known, at the end otherwise. -/
def put (k : κ) (a : α) : Table κ α → Table κ α
  | [] => [(k, a)]
  | (j, b) :: rest => if j = k then (k, a) :: rest else (j, b) :: put k a rest

/-- Drop a key; the others keep their order. -/
def erase (k : κ) : Table κ α → Table κ α
  | [] => []
  | (j, b) :: rest => if j = k then rest else (j, b) :: erase k rest

/-- Whether a key is known. -/
def has (k : κ) (t : Table κ α) : Bool := (get? k t).isSome

/-- The keys, in order. -/
def keys (t : Table κ α) : List κ := t.map Prod.fst

/-- The values, in order of their keys. -/
def values (t : Table κ α) : List α := t.map Prod.snd

/-- Store every entry of `more`. -/
def merge (t more : Table κ α) : Table κ α :=
  more.foldl (fun t (k, a) => put k a t) t

/-- The table with the entries of a list, a later entry overwriting an earlier one. -/
def ofList (entries : List (κ × α)) : Table κ α := merge [] entries

/-- Apply a function to the value under a key, if there is one. -/
def update (k : κ) (f : α → α) : Table κ α → Table κ α
  | [] => []
  | (j, b) :: rest => if j = k then (j, f b) :: rest else (j, b) :: update k f rest

theorem get?_put (t : Table κ α) (k j : κ) (a : α) :
    get? j (put k a t) = if k = j then some a else get? j t := by
  induction t with
  | nil => simp [put, get?]
  | cons e t ih =>
    obtain ⟨i, b⟩ := e
    by_cases hi : i = k
    · subst hi
      simp only [put, if_true, get?]
      split <;> rfl
    · simp only [put, if_neg hi, get?, ih]
      by_cases hj : i = j
      · subst hj
        simp [Ne.symm hi]
      · simp [hj]

theorem mem_keys_of_get? {t : Table κ α} {k : κ} {a : α} (h : get? k t = some a) : k ∈ keys t := by
  induction t with
  | nil => cases h
  | cons e t ih =>
    obtain ⟨j, b⟩ := e
    by_cases hj : j = k
    · simp [keys, hj]
    · rw [get?, if_neg hj] at h
      exact List.mem_cons_of_mem _ (ih h)

theorem get?_update (t : Table κ α) (k j : κ) (f : α → α) :
    get? j (update k f t) = if k = j then (get? j t).map f else get? j t := by
  induction t with
  | nil => simp [update, get?]
  | cons e t ih =>
    obtain ⟨i, b⟩ := e
    by_cases hi : i = k
    · subst hi
      simp only [update, if_true, get?]
      by_cases hj : i = j <;> simp [hj]
    · simp only [update, if_neg hi, get?, ih]
      by_cases hj : i = j
      · subst hj
        simp [Ne.symm hi]
      · simp [hj]

theorem keys_update (t : Table κ α) (k : κ) (f : α → α) : keys (update k f t) = keys t := by
  induction t with
  | nil => rfl
  | cons e t ih =>
    obtain ⟨i, b⟩ := e
    by_cases hi : i = k
    · simp [update, hi, keys]
    · simpa [update, hi, keys] using ih

end Table

end ReactiveScript

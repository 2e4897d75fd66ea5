import Mathlib
import ReactiveScript.Proofs.Layout

/-!
# Rows are packed greedily

With exact widths, packing cuts the units into rows as late as it can.  A row is closed by a mark,
when it is full, and when the next unit does not fit; so whether a unit still comes into the row of
the one in front of it can be seen from that row alone.

* `Measure.within` — how units are measured in any arithmetic, up to a tolerance.
* `Packer.Sound` — what packing keeps to: closed rows are fair, and the open one has room.
* `Packer.groups_add` — the row that a further unit comes to.
* `packing_is_greedy` — the rows of a list of units.
-/

set_option autoImplicit false

namespace ReactiveScript

/-! ## Measures -/

/-- Units are measured by the operations of an arithmetic, up to a tolerance. -/
def Measure.within {α ω : Type} [OfNat ω 0] [OfNat ω 1] [Add ω] [Sub ω] [Div ω] [LT ω] [LE ω]
    [DecidableLT ω] [DecidableLE ω] (tolerance : ω) (isBreak : α → Bool) (width : α → ω) :
    Measure α ω where
  isBreak := isBreak
  width := width
  zero := 0
  add := (· + ·)
  exceeds total := 1 + tolerance < total
  fills total := 1 - tolerance ≤ total
  share width total := if 0 < total then width / total else 0

/-- Output units are measured in floating-point numbers. -/
theorem OutputUnit.measure_eq :
    OutputUnit.measure = .within OutputUnit.tolerance OutputUnit.isRowBreak OutputUnit.width := rfl

/-! ## Places in rows -/

section Places

variable {α : Type}

/-- The number of the row in which a unit stands, if all units are counted through. -/
def rowOf : List (List α) → Nat → Nat
  | [], _ => 0
  | row :: rows, k => if k < row.length then 0 else rowOf rows (k - row.length) + 1

/-- The units of that row up to the unit. -/
def rowUpTo : List (List α) → Nat → List α
  | [], _ => []
  | row :: rows, k => if k < row.length then row.take (k + 1) else rowUpTo rows (k - row.length)

theorem rowOf_append (front : List (List α)) (a : List α) (u : α) (b : List α)
    (more : List (List α)) :
    rowOf (front ++ (a ++ u :: b) :: more) (front.flatten.length + a.length) = front.length := by
  induction front with
  | nil => simp [rowOf]
  | cons row front ih =>
    rw [List.cons_append, rowOf, if_neg (by simp; omega)]
    simpa [Nat.add_assoc] using ih

theorem rowUpTo_append (front : List (List α)) (a : List α) (u : α) (b : List α)
    (more : List (List α)) :
    rowUpTo (front ++ (a ++ u :: b) :: more) (front.flatten.length + a.length) = a ++ [u] := by
  induction front with
  | nil => simp [rowUpTo, List.take_append]
  | cons row front ih =>
    rw [List.cons_append, rowUpTo, if_neg (by simp; omega)]
    simpa [Nat.add_assoc] using ih

/-- Rows may come to have further units at the end of the last one, and further rows behind it. -/
def Grows (rows rows' : List (List α)) : Prop :=
  ∀ front last, rows = front ++ [last] → ∃ b more, rows' = front ++ (last ++ b) :: more

theorem Grows.refl (rows : List (List α)) : Grows rows rows :=
  fun _ _ h => ⟨[], [], by simp [h]⟩

theorem Grows.trans {rows rows' rows'' : List (List α)} (h : Grows rows rows')
    (h' : Grows rows' rows'') : Grows rows rows'' := by
  intro front last heq
  obtain ⟨b, more, hmore⟩ := h front last heq
  rcases List.eq_nil_or_concat more with rfl | ⟨more, row, rfl⟩
  · obtain ⟨b', more', hrows⟩ := h' front (last ++ b) hmore
    exact ⟨b ++ b', more', by simp [hrows]⟩
  · obtain ⟨b', more', hrows⟩ := h' (front ++ (last ++ b) :: more) row (by simp [hmore])
    exact ⟨b, more ++ (row ++ b') :: more', by simp [hrows]⟩

theorem Grows.append (rows more : List (List α)) : Grows rows (rows ++ more) :=
  fun _ _ h => ⟨[], more, by simp [h]⟩

theorem Grows.extend (rows : List (List α)) (a b : List α) :
    Grows (rows ++ [a]) (rows ++ [a ++ b]) := by
  intro front last h
  obtain ⟨rfl, hlast⟩ := List.append_inj' h rfl
  exact ⟨b, [], by simp [List.singleton_inj.1 hlast]⟩

/-- Two units behind one another, of which the second comes to a row of its own or to that of the
first. -/
theorem rowOf_consecutive {rows front : List (List α)} {a : List α} {u v : α} {apart : Prop}
    [Decidable apart]
    (h : Grows (if apart then front ++ [a ++ [u]] ++ [[v]] else front ++ [a ++ [u] ++ [v]]) rows) :
    rowUpTo rows (front.flatten.length + a.length) = a ++ [u] ∧
      (rowOf rows (front.flatten.length + a.length)
          ≠ rowOf rows (front.flatten.length + a.length + 1) ↔ apart) := by
  by_cases hapart : apart
  · rw [if_pos hapart] at h
    obtain ⟨b, more, hrows⟩ := h _ _ rfl
    have hfirst : rows = front ++ (a ++ u :: []) :: ((v :: b) :: more) := by simp [hrows]
    have hsecond := rowOf_append (front ++ [a ++ [u]]) [] v b more
    have hplace : (front ++ [a ++ [u]]).flatten.length + ([] : List α).length
        = front.flatten.length + a.length + 1 := by simp; omega
    rw [hplace] at hsecond
    rw [hfirst, rowUpTo_append, rowOf_append]
    simp at hsecond ⊢
    simp [hsecond, hapart]
  · rw [if_neg hapart] at h
    obtain ⟨b, more, hrows⟩ := h _ _ rfl
    have hfirst : rows = front ++ (a ++ u :: v :: b) :: more := by simp [hrows]
    have hsecond := rowOf_append front (a ++ [u]) v b more
    have hplace : front.flatten.length + (a ++ [u]).length
        = front.flatten.length + a.length + 1 := by simp; omega
    rw [hplace] at hsecond
    rw [hfirst, rowUpTo_append, rowOf_append]
    simp at hsecond ⊢
    simp [hsecond, hapart]

end Places

/-! ## Packing with exact widths -/

section Exact

variable {α : Type} (isBreak : α → Bool) {width : α → ℚ} {tolerance : ℚ}

/-- The width of several units together. -/
def breadth (width : α → ℚ) (units : List α) : ℚ := (units.map width).sum

theorem breadth_concat (units : List α) (u : α) :
    breadth width (units ++ [u]) = breadth width units + width u := by
  simp [breadth]

theorem breadth_pos {units : List α} (hunits : units ≠ []) (h : ∀ u ∈ units, 0 < width u) :
    0 < breadth width units := by
  rw [breadth]
  refine List.sum_pos _ (fun w hw => ?_) (by simpa using hunits)
  obtain ⟨u, hu, rfl⟩ := List.mem_map.1 hw
  exact h u hu

/-- A row with the shares that its units have in it. -/
structure Fair (width : α → ℚ) (tolerance : ℚ) (row : List (Placed α ℚ)) : Prop where
  /-- There is a unit in it. -/
  nonempty : row ≠ []
  /-- It is not too wide. -/
  breadth_le : breadth width (row.map Placed.unit) ≤ 1 + tolerance
  /-- The flex of a unit is its share of the width of the row. -/
  flex_eq : ∀ p ∈ row, p.flex = width p.unit / breadth width (row.map Placed.unit)
  /-- The shares are shares of one whole. -/
  sum_flex : (row.map Placed.flex).sum = 1

theorem fair_close {units : List α} (hunits : units ≠ []) (hpos : ∀ u ∈ units, 0 < width u)
    (hle : breadth width units ≤ 1 + tolerance) :
    Fair width tolerance
      (Packer.close (.within tolerance isBreak width) (breadth width units) units) := by
  have hbreadth := breadth_pos hunits hpos
  have hclose : Packer.close (.within tolerance isBreak width) (breadth width units) units
      = units.map fun u => ⟨u, width u / breadth width units⟩ :=
    List.map_congr_left fun u _ => congrArg (Placed.mk u) (if_pos hbreadth)
  have hunit := Packer.map_unit_close (.within tolerance isBreak width) (breadth width units) units
  refine ⟨by simpa [Packer.close] using hunits, by rwa [hunit], fun p hp => ?_, ?_⟩
  · rw [hunit]
    rw [hclose] at hp
    obtain ⟨u, -, rfl⟩ := List.mem_map.1 hp
    rfl
  · rw [hclose, List.map_map]
    simp only [Function.comp_def, div_eq_mul_inv, List.sum_map_mul_right]
    exact mul_inv_cancel₀ hbreadth.ne'

/-! ## The invariant -/

namespace Packer

/-- What packing keeps to: the total is that of the open row, which has room left, and closed rows
are fair. -/
structure Sound (width : α → ℚ) (tolerance : ℚ) (p : Packer α ℚ) : Prop where
  /-- The total is that of the open row. -/
  total_eq : p.total = breadth width p.current
  /-- A row that is full is not left open. -/
  open_lt : p.current ≠ [] → breadth width p.current < 1 - tolerance
  /-- Units have a width. -/
  width_pos : ∀ u ∈ p.current, 0 < width u
  /-- Closed rows are fair. -/
  fair : ∀ row ∈ p.rows, Fair width tolerance row

theorem sound_empty : Sound width tolerance (empty (.within tolerance isBreak width)) where
  total_eq := rfl
  open_lt h := absurd rfl h
  width_pos _ h := absurd h List.not_mem_nil
  fair _ h := absurd h List.not_mem_nil

/-- Closing a row that is not too wide, whether or not it has room left. -/
theorem sound_finish {p : Packer α ℚ} (htotal : p.total = breadth width p.current)
    (hpos : ∀ u ∈ p.current, 0 < width u) (hle : breadth width p.current ≤ 1 + tolerance)
    (hfair : ∀ row ∈ p.rows, Fair width tolerance row) :
    Sound width tolerance (p.finish (.within tolerance isBreak width)) := by
  rw [finish]
  split
  · rename_i hempty
    have hcurrent := List.isEmpty_iff.1 hempty
    exact ⟨htotal, fun h => absurd hcurrent h, hpos, hfair⟩
  · rename_i hopen
    have hcurrent : p.current ≠ [] := fun h => hopen (List.isEmpty_iff.2 h)
    refine ⟨rfl, fun h => absurd rfl h, fun _ h => absurd h List.not_mem_nil, fun row hrow => ?_⟩
    rcases List.mem_append.1 hrow with hrow | hrow
    · exact hfair row hrow
    · rw [List.mem_singleton.1 hrow, htotal]
      exact fair_close isBreak hcurrent hpos hle

variable (htolerance : 0 ≤ tolerance)

include htolerance

theorem Sound.breadth_le {p : Packer α ℚ} (h : Sound width tolerance p) :
    breadth width p.current ≤ 1 + tolerance := by
  by_cases hcurrent : p.current = []
  · simp [hcurrent, breadth]
    linarith
  · have := h.open_lt hcurrent
    linarith

theorem Sound.finish {p : Packer α ℚ} (h : Sound width tolerance p) :
    Sound width tolerance (p.finish (.within tolerance isBreak width)) :=
  sound_finish isBreak h.total_eq h.width_pos (h.breadth_le htolerance) h.fair

theorem Sound.makeRoom {p : Packer α ℚ} (h : Sound width tolerance p) {w : ℚ} (hw : w ≤ 1) :
    Sound width tolerance (p.makeRoom (.within tolerance isBreak width) w) ∧
      breadth width (p.makeRoom (.within tolerance isBreak width) w).current + w ≤
        1 + tolerance := by
  rw [Packer.makeRoom]
  split
  · refine ⟨h.finish isBreak htolerance, ?_⟩
    rw [current_finish]
    simp [breadth]
    linarith
  · rename_i hfits
    refine ⟨h, ?_⟩
    by_cases hcurrent : p.current = []
    · simp [hcurrent, breadth]
      linarith
    · simpa [hcurrent, Measure.within, h.total_eq] using hfits

omit htolerance in
theorem Sound.place {p : Packer α ℚ} (h : Sound width tolerance p) {u : α} (hu : 0 < width u)
    (hle : breadth width p.current + width u ≤ 1 + tolerance) :
    Sound width tolerance (p.place (.within tolerance isBreak width) u) := by
  have htotal : p.total + width u = breadth width (p.current ++ [u]) := by
    rw [breadth_concat, h.total_eq]
  have hpos : ∀ v ∈ p.current ++ [u], 0 < width v := by
    intro v hv
    rcases List.mem_append.1 hv with hv | hv
    · exact h.width_pos v hv
    · exact List.mem_singleton.1 hv ▸ hu
  rw [Packer.place]
  split
  · exact sound_finish isBreak htotal hpos (by rwa [breadth_concat]) h.fair
  · rename_i hroomy
    refine ⟨htotal, fun _ => ?_, hpos, h.fair⟩
    rw [← htotal]
    exact not_le.1 fun hfull => hroomy (decide_eq_true hfull)

/-- **Packing keeps to its invariant.** -/
theorem Sound.add {p : Packer α ℚ} (h : Sound width tolerance p) {u : α}
    (hu : 0 < width u ∧ width u ≤ 1) :
    Sound width tolerance (p.add (.within tolerance isBreak width) u) := by
  rw [Packer.add]
  split
  · exact h.finish isBreak htolerance
  · obtain ⟨hroom, hle⟩ := h.makeRoom isBreak htolerance hu.2
    exact hroom.place isBreak hu.1 hle

theorem Sound.foldl_add {p : Packer α ℚ} (h : Sound width tolerance p) {units : List α}
    (hunits : ∀ u ∈ units, 0 < width u ∧ width u ≤ 1) :
    Sound width tolerance (units.foldl (Packer.add (.within tolerance isBreak width)) p) := by
  induction units generalizing p with
  | nil => exact h
  | cons u units ih =>
    exact ih (h.add isBreak htolerance (hunits u List.mem_cons_self)) fun v hv =>
      hunits v (List.mem_cons_of_mem u hv)

end Packer

/-! ## The rows that units come to -/

namespace Packer

section Groups

variable {ω : Type} (r : Measure α ω)

/-- The units of every row, the open one being the last. -/
def groups (p : Packer α ω) : List (List α) :=
  p.rows.map (List.map Placed.unit) ++ if p.current = [] then [] else [p.current]

theorem flatten_groups (p : Packer α ω) : p.groups.flatten = p.units := by
  by_cases hcurrent : p.current = [] <;> simp [groups, units, hcurrent, List.map_flatten]

theorem groups_finish (p : Packer α ω) : (p.finish r).groups = p.groups := by
  rw [finish]
  split
  · rfl
  · rename_i hopen
    have hcurrent : p.current ≠ [] := fun h => hopen (List.isEmpty_iff.2 h)
    simp [groups, hcurrent, map_unit_close]

theorem groups_place (u : α) (p : Packer α ω) :
    (place r u p).groups = p.rows.map (List.map Placed.unit) ++ [p.current ++ [u]] := by
  rw [place]
  split
  · rw [groups_finish]
    simp [groups]
  · simp [groups]

/-- Whether a unit opens a row: none is open, or the open one has no room for it. -/
def opensRow (u : α) (p : Packer α ω) : Prop :=
  p.current = [] ∨ r.exceeds (r.add p.total (r.width u)) = true

theorem groups_add_of_opensRow {u : α} (hu : r.isBreak u = false) {p : Packer α ω}
    (h : opensRow r u p) : (p.add r u).groups = p.groups ++ [[u]] := by
  rw [add, if_neg (by simp [hu]), groups_place, makeRoom]
  by_cases hcurrent : p.current = []
  · simp [hcurrent, groups]
  · have hexceeds := h.resolve_left hcurrent
    have hfinish := current_finish r p
    rw [if_pos (by simp [hcurrent, hexceeds]), ← groups_finish r p]
    simp [groups, hfinish]

theorem groups_add_of_not_opensRow {u : α} (hu : r.isBreak u = false) {p : Packer α ω}
    (h : ¬ opensRow r u p) :
    p.groups = p.rows.map (List.map Placed.unit) ++ [p.current] ∧
      (p.add r u).groups = p.rows.map (List.map Placed.unit) ++ [p.current ++ [u]] := by
  obtain ⟨hcurrent, hexceeds⟩ := not_or.1 h
  rw [add, if_neg (by simp [hu]), groups_place, makeRoom, if_neg (by simp [hexceeds])]
  simp [groups, hcurrent]

theorem grows_add (p : Packer α ω) (u : α) : Grows p.groups (p.add r u).groups := by
  cases hu : r.isBreak u with
  | true =>
    rw [add, if_pos hu, groups_finish]
    exact .refl _
  | false =>
    by_cases h : opensRow r u p
    · rw [groups_add_of_opensRow r hu h]
      exact .append _ _
    · obtain ⟨hgroups, hgroups'⟩ := groups_add_of_not_opensRow r hu h
      rw [hgroups, hgroups']
      exact .extend _ _ _

theorem grows_foldl_add (us : List α) (p : Packer α ω) :
    Grows p.groups (us.foldl (add r) p).groups := by
  induction us generalizing p with
  | nil => exact .refl _
  | cons u us ih => exact (grows_add r p u).trans (ih _)

/-- Marks only close the open row. -/
theorem foldl_add_breaks {gap : List α} (hgap : ∀ b ∈ gap, r.isBreak b = true) (p : Packer α ω) :
    gap.foldl (add r) p = if gap = [] then p else p.finish r := by
  induction gap generalizing p with
  | nil => rfl
  | cons b gap ih =>
    obtain ⟨hb, hgap⟩ := List.forall_mem_cons.1 hgap
    have hagain : (p.finish r).finish r = p.finish r := by
      rw [finish, if_pos (by simp [current_finish])]
    rw [List.foldl_cons, ih hgap, add, if_pos hb, if_neg (List.cons_ne_nil b gap), hagain]
    exact ite_self _

end Groups

theorem Sound.current_place {p : Packer α ℚ} (h : Sound width tolerance p) (u : α) :
    (p.place (.within tolerance isBreak width) u).current
      = if 1 - tolerance ≤ breadth width (p.current ++ [u]) then [] else p.current ++ [u] := by
  rw [Packer.place, breadth_concat, ← h.total_eq]
  split
  · rename_i hfills
    have hfull : 1 - tolerance ≤ p.total + width u := of_decide_eq_true hfills
    rw [current_finish, if_pos hfull]
  · rename_i hroomy
    have hfull : ¬ 1 - tolerance ≤ p.total + width u := fun h => hroomy (decide_eq_true h)
    rw [if_neg hfull]

/-- The row of a unit that has just been placed, and whether it is still open. -/
theorem Sound.exists_group_add (htolerance : 0 ≤ tolerance) {p : Packer α ℚ}
    (h : Sound width tolerance p) {u : α} (hbreak : isBreak u = false) (hu : width u ≤ 1) :
    ∃ front a, (p.add (.within tolerance isBreak width) u).groups = front ++ [a ++ [u]] ∧
      (p.add (.within tolerance isBreak width) u).current
        = if 1 - tolerance ≤ breadth width (a ++ [u]) then [] else a ++ [u] := by
  have hroom := (h.makeRoom isBreak htolerance hu).1
  rw [Packer.add, if_neg (by simp [Measure.within, hbreak])]
  exact ⟨_, _, groups_place _ u _, hroom.current_place isBreak u⟩

/-- **Two units behind one another come to different rows** if a mark stands between them, if the
row of the first is full, or if it has no room for the second. -/
theorem Sound.groups_of_consecutive (htolerance : 0 ≤ tolerance) {p : Packer α ℚ}
    (h : Sound width tolerance p) {u v : α} {gap : List α} (hu : isBreak u = false)
    (hv : isBreak v = false) (hgap : ∀ b ∈ gap, isBreak b = true)
    (hwidth : 0 < width u ∧ width u ≤ 1) :
    ∃ front a, (p.add (.within tolerance isBreak width) u).groups = front ++ [a ++ [u]] ∧
      ((u :: (gap ++ [v])).foldl (Packer.add (.within tolerance isBreak width)) p).groups
        = if gap ≠ [] ∨ 1 - tolerance ≤ breadth width (a ++ [u]) ∨
            1 + tolerance < breadth width (a ++ [u]) + width v
          then front ++ [a ++ [u]] ++ [[v]] else front ++ [a ++ [u] ++ [v]] := by
  obtain ⟨front, a, hgroups, hcurrent⟩ := h.exists_group_add isBreak htolerance hu hwidth.2
  have hsound := h.add isBreak htolerance hwidth
  refine ⟨front, a, hgroups, ?_⟩
  rw [List.foldl_cons, List.foldl_append, List.foldl_cons, List.foldl_nil, foldl_add_breaks _ hgap]
  generalize p.add (.within tolerance isBreak width) u = q at hgroups hcurrent hsound ⊢
  have hopens : opensRow (.within tolerance isBreak width) v
      (if gap = [] then q else q.finish (.within tolerance isBreak width)) ↔
      gap ≠ [] ∨ 1 - tolerance ≤ breadth width (a ++ [u]) ∨
        1 + tolerance < breadth width (a ++ [u]) + width v := by
    by_cases hnone : gap = []
    · by_cases hfull : 1 - tolerance ≤ breadth width (a ++ [u])
      · simp [opensRow, hnone, hcurrent, hfull]
      · rw [if_neg hfull] at hcurrent
        simp [opensRow, hnone, hfull, hcurrent, Measure.within, hsound.total_eq]
    · simp [opensRow, hnone, current_finish]
  have hsame : (if gap = [] then q else q.finish (.within tolerance isBreak width)).groups
      = front ++ [a ++ [u]] := by
    split
    · exact hgroups
    · rw [groups_finish, hgroups]
  generalize (if gap = [] then q else q.finish (.within tolerance isBreak width)) = q' at *
  by_cases hcond : gap ≠ [] ∨ 1 - tolerance ≤ breadth width (a ++ [u]) ∨
      1 + tolerance < breadth width (a ++ [u]) + width v
  · rw [if_pos hcond, groups_add_of_opensRow _ hv (hopens.2 hcond), hsame]
  · obtain ⟨hold, hnew⟩ := groups_add_of_not_opensRow _ hv (mt hopens.1 hcond)
    rw [hsame] at hold
    obtain ⟨hfront, hlast⟩ := List.append_inj' hold rfl
    rw [if_neg hcond, hnew, ← hfront, ← List.singleton_inj.1 hlast]

end Packer

/-! ## The rows of a list of units -/

/-- The tolerance of packing. -/
def slack : ℚ := 1 / 10 ^ 9

theorem slack_nonneg : 0 ≤ slack := by norm_num [slack]

/-- Units measured by exact widths. -/
abbrev Measure.exact (isBreak : α → Bool) (width : α → ℚ) : Measure α ℚ :=
  .within slack isBreak width

namespace Packer

/-- A packer after some units were added to a new one. -/
abbrev after {ω : Type} (r : Measure α ω) (us : List α) : Packer α ω := us.foldl (add r) (empty r)

theorem map_unit_packRows_eq_groups {ω : Type} (r : Measure α ω) (us : List α) :
    (packRows r us).map (List.map Placed.unit) = (after r us).groups := by
  rw [← groups_finish r, groups, current_finish, if_pos rfl, List.append_nil]
  rfl

/-- The rows of further units come behind and into those that are there. -/
theorem grows_packRows {ω : Type} (r : Measure α ω) (us more : List α) :
    Grows (after r us).groups ((packRows r (us ++ more)).map (List.map Placed.unit)) := by
  rw [map_unit_packRows_eq_groups, after, after, List.foldl_append]
  exact grows_foldl_add r more _

theorem sound_after {us : List α} (hwidth : ∀ u ∈ us, 0 < width u ∧ width u ≤ 1) :
    Sound width slack (after (.exact isBreak width) us) :=
  (sound_empty isBreak).foldl_add isBreak slack_nonneg hwidth

/-- A packer is new again when its rows have been taken out. -/
theorem Sound.takeRows_snd {p : Packer α ℚ} (h : Sound width slack p) :
    (p.takeRows (.exact isBreak width)).2 = empty (.exact isBreak width) := by
  have hfinish := h.finish isBreak slack_nonneg
  have hcurrent := current_finish (.exact isBreak width) p
  have htotal := hfinish.total_eq
  rw [hcurrent] at htotal
  rw [takeRows]
  simp only [hcurrent, htotal]
  rfl

end Packer

/-- **Rows are packed greedily.**  Units that are added one after another come out in rows that hold
all of them in order but for the marks, and the packer is new again.  No row is empty or too wide,
and the flexes of a row are the shares of its units.  Two units behind one another stand in
different rows exactly if a mark stands between them, the row up to the first is full, or it has no
room for the second. -/
theorem packing_is_greedy (isBreak : α → Bool) (width : α → ℚ) (us : List α)
    (hwidth : ∀ u ∈ us, 0 < width u ∧ width u ≤ 1) :
    (Packer.after (.exact isBreak width) us).takeRows (.exact isBreak width)
      = (packRows (.exact isBreak width) us, .empty (.exact isBreak width)) ∧
    (packRows (.exact isBreak width) us).flatten.map Placed.unit
      = us.filter (fun u => !isBreak u) ∧
    (∀ row ∈ packRows (.exact isBreak width) us, Fair width slack row) ∧
    ∀ pre u gap v post, us = pre ++ u :: (gap ++ v :: post) →
      isBreak u = false → isBreak v = false → (∀ b ∈ gap, isBreak b = true) →
      let rows := (packRows (.exact isBreak width) us).map (List.map Placed.unit)
      let k := (pre.filter fun u => !isBreak u).length
      (rowOf rows k ≠ rowOf rows (k + 1) ↔
        gap ≠ [] ∨ 1 - slack ≤ breadth width (rowUpTo rows k) ∨
          1 + slack < breadth width (rowUpTo rows k) + width v) := by
  have hsound := Packer.sound_after isBreak hwidth
  refine ⟨Prod.ext rfl (hsound.takeRows_snd isBreak), map_unit_packRows _ us,
    (hsound.finish isBreak slack_nonneg).fair, ?_⟩
  rintro pre u gap v post rfl hu hv hgap rows k
  have hpre := Packer.sound_after isBreak fun w hw => hwidth w (List.mem_append_left _ hw)
  obtain ⟨front, a, hfirst, hboth⟩ :=
    hpre.groups_of_consecutive isBreak slack_nonneg hu hv hgap (hwidth u (by simp))
  -- The units in front of the first one are those of the rows in front of it and of its own.
  have hk : k = front.flatten.length + a.length := by
    have hunits := congrArg List.flatten hfirst
    rw [Packer.flatten_groups, Packer.units_add, Packer.units_foldl_add] at hunits
    have hlength := congrArg List.length hunits
    simp [Packer.units, Packer.empty, Measure.within, hu] at hlength
    simp [k]
    omega
  have hgrows := Packer.grows_packRows (.exact isBreak width) (pre ++ u :: (gap ++ [v])) post
  rw [Packer.after, List.foldl_append, hboth] at hgrows
  obtain ⟨hupTo, hapart⟩ := rowOf_consecutive hgrows
  have hrows : rows = (packRows (.exact isBreak width) (pre ++ u :: (gap ++ [v]) ++ post)).map
      (List.map Placed.unit) := by simp [rows]
  rw [hk, hrows, hupTo]
  exact hapart

/-- Units that are nothing but a width and whether they only end a row. -/
def someWidths : List (Bool × ℚ) :=
  [(false, 1 / 2), (false, 3 / 10), (false, 2 / 5), (true, 1), (false, 1 / 3), (false, 1 / 3),
    (false, 1 / 3), (false, 1)]

/-- The theorem applies to rows that are closed because the next unit does not fit, by a mark and
because they are full. -/
theorem packing_is_greedy_of_someWidths :
    (∀ u ∈ someWidths, 0 < u.2 ∧ u.2 ≤ 1) ∧
    ∃ rows, (packRows (.exact Prod.fst Prod.snd) someWidths).map (List.map Placed.unit) = rows ∧
      rows = [[(false, 1 / 2), (false, 3 / 10)], [(false, 2 / 5)],
        [(false, 1 / 3), (false, 1 / 3), (false, 1 / 3)], [(false, 1)]] ∧
      rowOf rows 1 ≠ rowOf rows 2 ∧ rowOf rows 2 ≠ rowOf rows 3 ∧ rowOf rows 3 = rowOf rows 4 ∧
      ∀ row ∈ packRows (.exact Prod.fst Prod.snd) someWidths, Fair Prod.snd slack row := by
  have hwidths : ∀ u ∈ someWidths, 0 < u.2 ∧ u.2 ≤ 1 := by simp [someWidths]; norm_num
  obtain ⟨-, -, hfair, hplaces⟩ := packing_is_greedy Prod.fst Prod.snd someWidths hwidths
  have hrows : (packRows (.exact Prod.fst Prod.snd) someWidths).map (List.map Placed.unit)
      = [[(false, 1 / 2), (false, 3 / 10)], [(false, 2 / 5)],
        [(false, 1 / 3), (false, 1 / 3), (false, 1 / 3)], [(false, 1)]] := by cbv
  have hfits := hplaces [(false, 1 / 2)] (false, 3 / 10) [] (false, 2 / 5) _ rfl rfl rfl (by simp)
  have hmark := hplaces [(false, 1 / 2), (false, 3 / 10)] (false, 2 / 5) [(true, 1)]
    (false, 1 / 3) _ rfl rfl rfl (by simp)
  have hroom := hplaces [(false, 1 / 2), (false, 3 / 10), (false, 2 / 5), (true, 1)]
    (false, 1 / 3) [] (false, 1 / 3) _ rfl rfl rfl (by simp)
  rw [hrows] at hfits hmark hroom
  refine ⟨hwidths, _, hrows, rfl, hfits.2 ?_, hmark.2 (by simp), not_not.1 (mt hroom.1 ?_), hfair⟩
  · norm_num [breadth, rowUpTo, slack]
  · norm_num [breadth, rowUpTo, slack]

end Exact

end ReactiveScript

import ReactiveScript.Layout

/-!
# Packing keeps the units

The rows of a list of units hold all of its units once, in their order, whatever widths are; only the
units that end a row are left out.

* `Packer.units_add` — one unit more.
* `map_unit_packRows` — the units of all rows.
* `packRows_map`, `OutputUnit.map_face_pack` — nothing but kinds and widths matters to the form of the
  rows.
-/

set_option autoImplicit false

namespace ReactiveScript

section Packing

variable {α ω : Type} (r : Measure α ω)

namespace Packer

/-- The units that have been packed so far. -/
def units (p : Packer α ω) : List α := p.rows.flatten.map Placed.unit ++ p.current

theorem map_unit_close (total : ω) (us : List α) : (close r total us).map Placed.unit = us := by
  rw [close, List.map_map]
  exact List.map_id us

theorem units_finish (p : Packer α ω) : (p.finish r).units = p.units := by
  rw [finish]
  split
  · rfl
  · rw [units, units, List.flatten_append, List.map_append, List.flatten_singleton, map_unit_close,
      List.append_nil]

theorem units_makeRoom (width : ω) (p : Packer α ω) : (makeRoom r width p).units = p.units := by
  rw [makeRoom]
  split
  · exact units_finish r p
  · rfl

theorem units_place (u : α) (p : Packer α ω) : (place r u p).units = p.units ++ [u] := by
  rw [place]
  split
  · rw [units_finish, units, units, List.append_assoc]
  · rw [units, units, List.append_assoc]

/-- A unit is packed behind the others, unless it only ends a row. -/
theorem units_add (p : Packer α ω) (u : α) :
    (p.add r u).units = p.units ++ [u].filter fun u => !r.isBreak u := by
  rw [add]
  split
  · rename_i hbreak
    rw [units_finish, List.filter_cons_of_neg (by simpa using hbreak), List.filter_nil,
      List.append_nil]
  · rename_i hbreak
    rw [units_place, units_makeRoom, List.filter_cons_of_pos (by simpa using hbreak),
      List.filter_nil]

theorem units_foldl_add (us : List α) (p : Packer α ω) :
    (us.foldl (add r) p).units = p.units ++ us.filter fun u => !r.isBreak u := by
  induction us generalizing p with
  | nil => exact (List.append_nil _).symm
  | cons u us ih =>
    rw [List.foldl_cons, ih, units_add, List.append_assoc, ← List.filter_append,
      List.singleton_append]

theorem current_finish (p : Packer α ω) : (p.finish r).current = [] := by
  rw [finish]
  split
  · rename_i hempty
    exact List.isEmpty_iff.1 hempty
  · rfl

end Packer

/-- **Rows hold all units in order**, but for those that only end a row. -/
theorem map_unit_packRows (us : List α) :
    (packRows r us).flatten.map Placed.unit = us.filter fun u => !r.isBreak u := by
  have hunits := Packer.units_foldl_add r us (Packer.empty r)
  rw [← Packer.units_finish, Packer.units, Packer.current_finish, List.append_nil] at hunits
  exact hunits

end Packing

/-! ## What packing looks at -/

section Congruence

variable {α β ω : Type}

/-- Units measured by something else that they stand for. -/
def Measure.comap (r : Measure β ω) (f : α → β) : Measure α ω :=
  { r with isBreak := fun u => r.isBreak (f u), width := fun u => r.width (f u) }

/-- A placed unit with something else in place of the unit. -/
def Placed.map (f : α → β) (p : Placed α ω) : Placed β ω := ⟨f p.unit, p.flex⟩

namespace Packer

variable (r : Measure β ω) (f : α → β)

/-- The same rows with something else in place of each unit. -/
def map (p : Packer α ω) : Packer β ω :=
  ⟨p.rows.map (List.map (Placed.map f)), p.current.map f, p.total⟩

theorem map_close (total : ω) (us : List α) :
    (close (r.comap f) total us).map (Placed.map f) = close r total (us.map f) := by
  rw [close, close, List.map_map, List.map_map]
  rfl

theorem map_finish (p : Packer α ω) : (p.finish (r.comap f)).map f = (p.map f).finish r := by
  have hempty : (p.map f).current.isEmpty = p.current.isEmpty := List.isEmpty_map
  rw [finish, finish, hempty]
  split
  · rfl
  · rw [map, List.map_append, List.map_singleton, map_close]
    rfl

theorem map_makeRoom (width : ω) (p : Packer α ω) :
    (makeRoom (r.comap f) width p).map f = makeRoom r width (p.map f) := by
  have hempty : (p.map f).current.isEmpty = p.current.isEmpty := List.isEmpty_map
  rw [makeRoom, makeRoom, hempty]
  show Packer.map f (if (!p.current.isEmpty && r.exceeds (r.add p.total width)) = true then _ else p)
    = if (!p.current.isEmpty && r.exceeds (r.add p.total width)) = true then _ else _
  split
  · exact map_finish r f p
  · rfl

theorem map_place (u : α) (p : Packer α ω) :
    (place (r.comap f) u p).map f = place r (f u) (p.map f) := by
  have happend : (⟨p.rows, p.current ++ [u], r.add p.total (r.width (f u))⟩ : Packer α ω).map f
      = ⟨(p.map f).rows, (p.map f).current ++ [f u], r.add p.total (r.width (f u))⟩ := by
    rw [map, List.map_append, List.map_singleton]
    rfl
  rw [place, place]
  show Packer.map f (if r.fills (r.add p.total (r.width (f u))) = true then _ else _)
    = if r.fills (r.add p.total (r.width (f u))) = true then _ else _
  split
  · rw [map_finish]
    exact congrArg (finish r) happend
  · exact happend

theorem map_add (p : Packer α ω) (u : α) :
    (p.add (r.comap f) u).map f = (p.map f).add r (f u) := by
  rw [add, add]
  show Packer.map f (if r.isBreak (f u) = true then _ else _) = if r.isBreak (f u) = true then _ else _
  split
  · exact map_finish r f p
  · rw [map_place, map_makeRoom]
    rfl

theorem map_foldl_add (us : List α) (p : Packer α ω) :
    (us.foldl (add (r.comap f)) p).map f = (us.map f).foldl (add r) (p.map f) := by
  induction us generalizing p with
  | nil => rfl
  | cons u us ih => rw [List.foldl_cons, ih, map_add, List.map_cons, List.foldl_cons]

end Packer

/-- **Packing looks at what measures units only**: rows of one kind of units are those of another
kind that is measured alike. -/
theorem packRows_map (r : Measure β ω) (f : α → β) (us : List α) :
    packRows r (us.map f) = (packRows (r.comap f) us).map (List.map (Placed.map f)) := by
  have hrows := congrArg (fun p => (p.finish r).rows)
    (Packer.map_foldl_add r f us (Packer.empty (r.comap f)))
  rw [← Packer.map_finish] at hrows
  exact hrows.symm

end Congruence

namespace OutputUnit

/-- What a row shows of a unit besides its value: its id, its kind and its width. -/
def face (u : OutputUnit) : UnitId × String × Float := (u.id, u.kind, u.width)

/-- **The rows of units with the same faces have the same form**: the same units with the same kinds,
widths and flexes at the same places. -/
theorem map_face_pack {us us' : List OutputUnit} (h : us.map face = us'.map face) :
    (pack us).map (List.map (Placed.map face)) = (pack us').map (List.map (Placed.map face)) := by
  let r : Measure (UnitId × String × Float) Float :=
    { measure with isBreak := fun e => e.2.1 == rowBreakKind, width := fun e => e.2.2 }
  have hpack : ∀ us, packRows r (us.map face) = (pack us).map (List.map (Placed.map face)) :=
    packRows_map r face
  rw [← hpack, ← hpack, h]

end OutputUnit

/-- The kinds of the units that are on display. -/
theorem OutputUnit.map_kind_pack (us : List OutputUnit) :
    (pack us).flatten.map (fun p => p.unit.kind)
      = (us.map OutputUnit.kind).filter fun kind => !(kind == rowBreakKind) := by
  have hunits := congrArg (List.map OutputUnit.kind) (map_unit_packRows measure us)
  rw [List.map_map] at hunits
  rw [List.filter_map]
  exact hunits

end ReactiveScript

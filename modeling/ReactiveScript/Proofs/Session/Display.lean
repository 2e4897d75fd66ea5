import ReactiveScript.Proofs.Graph.Settled
import ReactiveScript.Session.Run

/-!
# What a walk puts on view

The report of a walk mentions every node at most once, so that after it each node has on view what
the report shows of it.

* `View.shown` — the units of a node on view, none if there is no segment.
* `Session.shown_apply` — what is on view after a walk.
-/

set_option autoImplicit false

namespace ReactiveScript

/-! ## Views -/

namespace View

/-- The units of a node on view. -/
def shown (v : View) (id : NodeId) : List OutputUnit := (v.segment? id).getD []

/-- No node has two segments. -/
def Distinct (v : View) : Prop := (Table.keys v.segments).Nodup

theorem distinct_empty : Distinct empty := List.nodup_nil

variable {v : View}

theorem Distinct.remove (h : v.Distinct) (node : NodeId) : (v.remove node).Distinct :=
  h.sublist (Table.keys_erase_sublist v.segments node)

theorem Distinct.replace (h : v.Distinct) (node : NodeId) (units : List OutputUnit) :
    (v.replace node units).Distinct := by
  rw [View.replace]
  split
  · exact h.remove node
  · exact Table.nodup_keys_put h node units

theorem shown_remove (h : v.Distinct) (node id : NodeId) :
    (v.remove node).shown id = if node = id then [] else v.shown id := by
  rw [shown, segment?, remove, Table.get?_erase h]
  split <;> rfl

theorem shown_replace (h : v.Distinct) (node id : NodeId) (units : List OutputUnit) :
    (v.replace node units).shown id = if node = id then units else v.shown id := by
  rw [replace]
  split
  · rename_i hunits
    rw [shown_remove h, List.isEmpty_iff.1 hunits]
  · rw [shown, segment?, Table.get?_put]
    split <;> rfl

theorem mem_keys_remove {node id : NodeId} (h : id ∈ Table.keys (v.remove node).segments) :
    id ∈ Table.keys v.segments :=
  (Table.keys_erase_sublist v.segments node).subset h

theorem mem_keys_replace {node id : NodeId} {units : List OutputUnit}
    (h : id ∈ Table.keys (v.replace node units).segments) :
    id = node ∨ id ∈ Table.keys v.segments := by
  rw [replace] at h
  split at h
  · exact Or.inr (mem_keys_remove h)
  · exact Table.mem_keys_put.1 h

/-- What is on view once nodes have lost their units. -/
theorem shown_foldl_remove (h : v.Distinct) (nodes : List NodeId) :
    (nodes.foldl (fun v node => v.remove node) v).Distinct ∧
      (∀ id, (nodes.foldl (fun v node => v.remove node) v).shown id
        = if id ∈ nodes then [] else v.shown id) ∧
      ∀ id ∈ Table.keys (nodes.foldl (fun v node => v.remove node) v).segments,
        id ∈ Table.keys v.segments := by
  induction nodes generalizing v with
  | nil => exact ⟨h, fun id => rfl, fun id hid => hid⟩
  | cons node nodes ih =>
    obtain ⟨hdistinct, hshown, hkeys⟩ := ih (h.remove node)
    refine ⟨hdistinct, fun id => ?_, fun id hid => mem_keys_remove (hkeys id hid)⟩
    rw [List.foldl_cons, hshown, shown_remove h]
    by_cases hid : id = node
    · simp [hid]
    · simp [hid, Ne.symm hid]

/-- What is on view once nodes have got new units. -/
theorem shown_foldl_replace (h : v.Distinct) {outputs : List (NodeId × List OutputUnit)}
    (houtputs : (Table.keys outputs).Nodup) :
    (outputs.foldl (fun v (node, units) => v.replace node units) v).Distinct ∧
      (∀ id, (outputs.foldl (fun v (node, units) => v.replace node units) v).shown id
        = (Table.get? id outputs).getD (v.shown id)) ∧
      ∀ id ∈ Table.keys (outputs.foldl (fun v (node, units) => v.replace node units) v).segments,
        id ∈ Table.keys v.segments ∨ id ∈ Table.keys outputs := by
  induction outputs generalizing v with
  | nil => exact ⟨h, fun id => rfl, fun id hid => Or.inl hid⟩
  | cons e outputs ih =>
    obtain ⟨node, units⟩ := e
    obtain ⟨hnode, houtputs⟩ := List.nodup_cons.1 houtputs
    obtain ⟨hdistinct, hshown, hkeys⟩ := ih (h.replace node units) houtputs
    refine ⟨hdistinct, fun id => ?_, fun id hid => ?_⟩
    · rw [List.foldl_cons, hshown, shown_replace h, Table.get?]
      split
      · rename_i heq
        subst heq
        rw [Table.get?_eq_none_iff.2 hnode]
        rfl
      · rfl
    · rcases hkeys id hid with hid | hid
      · exact (mem_keys_replace hid).elim
          (fun heq => Or.inr (heq ▸ List.mem_cons_self)) Or.inl
      · exact Or.inr (List.mem_cons_of_mem _ hid)

/-- If every segment is that of a node in order, the units come in that order. -/
theorem units_eq {order : List NodeId} (h : ∀ id ∈ Table.keys v.segments, id ∈ order) :
    v.units order = order.flatMap v.shown := by
  have hrest : (v.segments.filter fun e => !order.contains e.1) = [] := by
    refine List.filter_eq_nil_iff.2 fun e he => ?_
    simpa using h e.1 (List.mem_map_of_mem he)
  rw [units, hrest, List.flatMap_nil, List.append_nil]
  rfl

end View

namespace Session

variable {s : Session}

theorem announce_eq (node : Option NodeId) (lines : List String) (s : Session) :
    ∃ audience, s.announce node lines = { s with audience } := by
  induction lines generalizing s with
  | nil => exact ⟨s.audience, rfl⟩
  | cons line lines ih =>
    obtain ⟨audience, h⟩ := ih (s.broadcast none (.output line node))
    exact ⟨audience, h⟩

theorem announceAll_eq (printed : List (NodeId × List String)) (s : Session) :
    ∃ audience, printed.foldl (fun s (node, lines) => s.announce (some node) lines) s
      = { s with audience } := by
  induction printed generalizing s with
  | nil => exact ⟨s.audience, rfl⟩
  | cons e printed ih =>
    obtain ⟨audience, h⟩ := announce_eq (some e.1) e.2 s
    obtain ⟨audience', h'⟩ := ih (s.announce (some e.1) e.2)
    refine ⟨audience', ?_⟩
    rw [List.foldl_cons, h', h]

/-- Taking a walk on view changes the view, and observers hear of it. -/
theorem apply_eq (r : Report) (s : Session) :
    ∃ audience, s.apply r = { s with
      audience
      view := r.outputs.foldl (fun v (node, units) => v.replace node units)
        (r.invalidated.foldl (fun v node => v.remove node) s.view) } := by
  obtain ⟨audience, h⟩ := announceAll_eq r.printed s
  exact ⟨audience, by rw [Session.apply, h]⟩

theorem graph_apply (r : Report) (s : Session) : (s.apply r).graph = s.graph := by
  obtain ⟨audience, happly⟩ := apply_eq r s
  rw [happly]

/-- **After a walk each node has on view what the report shows of it.** -/
theorem shown_apply {r : Report} (hview : s.view.Distinct) (hr : r.mentions.Nodup) :
    (s.apply r).view.Distinct ∧ (s.apply r).view.shown = r.show s.view.shown ∧
      ∀ id ∈ Table.keys (s.apply r).view.segments,
        id ∈ Table.keys s.view.segments ∨ id ∈ r.mentions := by
  obtain ⟨audience, heq⟩ := apply_eq r s
  obtain ⟨-, houtputs, hdisjoint⟩ := List.nodup_append.1 hr
  obtain ⟨hremoved, hshown, hkeys⟩ := View.shown_foldl_remove hview r.invalidated
  obtain ⟨hreplaced, hshown', hkeys'⟩ := View.shown_foldl_replace hremoved houtputs
  rw [heq]
  refine ⟨hreplaced, funext fun id => ?_, fun id hid => ?_⟩
  · rw [Report.show]
    show View.shown _ id = _
    rw [hshown', hshown]
    split
    · rename_i hid
      rw [Table.get?_eq_none_iff.2 fun hmem => hdisjoint id hid id hmem rfl]
      rfl
    · rfl
  · rcases hkeys' id hid with hid | hid
    · exact Or.inl (hkeys id hid)
    · exact Or.inr (List.mem_append_right _ hid)

end Session

end ReactiveScript

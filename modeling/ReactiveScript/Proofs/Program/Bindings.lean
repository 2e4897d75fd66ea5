import ReactiveScript.Program.Split
import ReactiveScript.Proofs.Graph.NodeSet
import ReactiveScript.Proofs.Table

/-!
# What names stand for

How the tables that a script is split with answer: which node a variable stands for at some position
and for functions, which node a function stands for, and which parameter takes the place of a
variable.

* `Bindings.resolve_of_before` — a variable that has been assigned stands for its last assignment so
  far, and `Bindings.get?_globals` — for functions it stands for the last of all.
* `Dependencies.mem_nodes`, `Dependencies.renamed_eq` — the nodes that a statement depends on, and
  the parameters under which it gets their values.
-/

set_option autoImplicit false

namespace ReactiveScript

/-! ## Sorted texts -/

theorem mem_insertSorted {s t : String} {ts : List String} :
    s ∈ insertSorted t ts ↔ s = t ∨ s ∈ ts := by
  induction ts with
  | nil => simp [insertSorted]
  | cons u ts ih =>
    rw [insertSorted]
    split
    · exact List.mem_cons
    · split
      · rename_i htu
        rw [htu, List.mem_cons]
        exact ⟨Or.inr, fun h => h.elim Or.inl fun h => h⟩
      · rw [List.mem_cons, ih, List.mem_cons]
        exact or_left_comm

@[simp] theorem mem_sortedTexts {s : String} {ts : List String} : s ∈ sortedTexts ts ↔ s ∈ ts := by
  induction ts with
  | nil => exact Iff.rfl
  | cons t ts ih =>
    rw [sortedTexts, List.foldr_cons, mem_insertSorted, List.mem_cons]
    exact or_congr_right ih

theorem sortedLT_insertSorted {s : String} {ts : List String} (h : ts.SortedLT) :
    (insertSorted s ts).SortedLT := by
  rw [List.sortedLT_iff_pairwise] at h ⊢
  induction ts with
  | nil => exact List.pairwise_singleton _ s
  | cons t ts ih =>
    obtain ⟨ht, hts⟩ := List.pairwise_cons.1 h
    rw [insertSorted]
    split
    · rename_i hlt
      refine List.pairwise_cons.2 ⟨fun u hu => ?_, h⟩
      rcases List.mem_cons.1 hu with rfl | hu
      · exact hlt
      · exact lt_trans hlt (ht u hu)
    · rename_i hle
      split
      · exact h
      · rename_i hne
        refine List.pairwise_cons.2 ⟨fun u hu => ?_, ih hts⟩
        rcases mem_insertSorted.1 hu with rfl | hu
        · exact lt_of_le_of_ne (not_lt.1 hle) (Ne.symm hne)
        · exact ht u hu

theorem sortedLT_sortedTexts (ts : List String) : (sortedTexts ts).SortedLT := by
  induction ts with
  | nil => exact List.sortedLT_iff_pairwise.2 List.Pairwise.nil
  | cons t ts ih => exact sortedLT_insertSorted ih

/-- Sorted texts are determined by what is among them. -/
theorem sortedTexts_congr {ss ts : List String} (h : ∀ s, s ∈ ss ↔ s ∈ ts) :
    sortedTexts ss = sortedTexts ts :=
  (sortedLT_sortedTexts ss).eq_of_mem_iff (sortedLT_sortedTexts ts) fun s => by
    rw [mem_sortedTexts, mem_sortedTexts, h]

/-! ## Slots -/

namespace Slot

/-- The node of a slot. -/
def id : Slot → NodeId
  | .statement id .. => id
  | .definition id .. => id

/-- Where a slot stands. -/
def span : Slot → Span
  | .statement _ _ span _ _ => span
  | .definition _ span _ => span

/-- The variable that a slot assigns. -/
def binds? : Slot → Option String
  | .statement _ _ _ binds _ => binds
  | .definition .. => none

/-- The expression of a slot. -/
def expression? : Slot → Option Expr
  | .statement _ _ _ _ e => some e
  | .definition .. => none

theorem defines?_eq_none_of_binds? {s : Slot} {n : String} (h : s.binds? = some n) :
    s.defines? = none := by
  cases s with
  | statement => rfl
  | definition => cases h

end Slot

namespace Bindings

/-! ## Assignments -/

/-- The assignments of a variable among slots that start at some position. -/
def binders (n : String) (position : Nat) : List Slot → List (Nat × NodeId)
  | [] => []
  | s :: ss =>
    (if s.binds? = some n then [(position, s.id)] else []) ++ binders n (position + 1) ss

theorem binders_append (n : String) (position : Nat) (ss ss' : List Slot) :
    binders n position (ss ++ ss')
      = binders n position ss ++ binders n (position + ss.length) ss' := by
  induction ss generalizing position with
  | nil => rfl
  | cons s ss ih =>
    rw [List.cons_append, binders, binders, ih, List.append_assoc, List.length_cons,
      Nat.add_right_comm, Nat.add_assoc]

theorem of_binders {n : String} {position : Nat} {ss : List Slot} {i : Nat} {id : NodeId}
    (h : (i, id) ∈ binders n position ss) :
    position ≤ i ∧ i < position + ss.length ∧ ∃ s ∈ ss, s.binds? = some n ∧ s.id = id := by
  induction ss generalizing position with
  | nil => cases h
  | cons s ss ih =>
    rw [binders] at h
    rcases List.mem_append.1 h with h | h
    · split at h
      · rename_i hbinds
        cases List.mem_singleton.1 h
        exact ⟨Nat.le_refl _, by simp, s, List.mem_cons_self, hbinds, rfl⟩
      · cases h
    · obtain ⟨hle, hlt, s', hs', hbinds, hid⟩ := ih h
      exact ⟨by omega, by rw [List.length_cons]; omega, s', List.mem_cons_of_mem _ hs', hbinds, hid⟩

theorem binders_eq_nil_iff {n : String} {position : Nat} {ss : List Slot} :
    binders n position ss = [] ↔ ∀ s ∈ ss, s.binds? ≠ some n := by
  induction ss generalizing position with
  | nil => simp [binders]
  | cons s ss ih =>
    rw [binders, List.append_eq_nil_iff, ih, List.forall_mem_cons]
    refine and_congr_left fun _ => ?_
    split
    · rename_i h
      exact ⟨fun h' => absurd h' (List.cons_ne_nil _ _), fun h' => absurd h h'⟩
    · rename_i h
      exact ⟨fun _ => h, fun _ => rfl⟩

theorem of_add (b : Bindings) (position : Nat) (s : Slot) (n : String) :
    (b.add position s).of n = b.of n ++ binders n position [s] := by
  rcases s with ⟨id, kind, span, _ | target, e⟩ | ⟨id, span, d⟩
  · exact (List.append_nil _).symm
  · rw [add, of, binders, binders, List.append_nil]
    simp only [Table.get?_put, Slot.binds?, Option.some.injEq]
    split
    · rename_i h
      rw [h]
      rfl
    · exact (List.append_nil _).symm
  · exact (List.append_nil _).symm

theorem of_addAll (b : Bindings) (position : Nat) (ss : List Slot) (n : String) :
    (b.addAll position ss).of n = b.of n ++ binders n position ss := by
  induction ss generalizing b position with
  | nil => exact (List.append_nil _).symm
  | cons s ss ih =>
    rw [addAll, ih, of_add, List.append_assoc, binders, binders, List.append_nil, binders]

theorem of_ofSlots (ss : List Slot) (n : String) : (ofSlots ss).of n = binders n 0 ss := by
  rw [ofSlots, of_addAll]
  rfl

/-- A variable stands for its last assignment before the position, if there is one. -/
theorem resolve_of_before {before after : List Slot} {n : String} {i : Nat} {id : NodeId}
    (h : (binders n 0 before).getLast? = some (i, id)) :
    (ofSlots (before ++ after)).resolve before.length n = some (id, false) := by
  have hafter : ((binders n (0 + before.length) after).reverse.find? fun x =>
      decide (x.1 < before.length)) = none := by
    refine List.find?_eq_none.2 fun x hx => ?_
    have hle := (of_binders (List.mem_reverse.1 hx)).1
    simp only [decide_eq_true_eq, Nat.not_lt]
    omega
  have hlt := (of_binders (List.mem_of_getLast? h)).2.1
  rw [List.getLast?_eq_head?_reverse] at h
  obtain ⟨rest, hrest⟩ : ∃ rest, (binders n 0 before).reverse = (i, id) :: rest := by
    cases hb : (binders n 0 before).reverse with
    | nil =>
      rw [hb] at h
      cases h
    | cons x rest =>
      rw [hb] at h
      cases h
      exact ⟨rest, rfl⟩
  have hfind : ((binders n 0 (before ++ after)).reverse.find? fun x =>
      decide (x.1 < before.length)) = some (i, id) := by
    rw [binders_append, List.reverse_append, List.find?_append, hafter, Option.none_or, hrest,
      List.find?_cons_of_pos]
    simp only [decide_eq_true_eq]
    omega
  rw [resolve, of_ofSlots]
  simp only [hfind]

/-- A variable that stands for a node is assigned there. -/
theorem exists_of_resolve {ss : List Slot} {position : Nat} {n : String} {id : NodeId}
    {forward : Bool} (h : (ofSlots ss).resolve position n = some (id, forward)) :
    ∃ s ∈ ss, s.binds? = some n ∧ s.id = id := by
  rw [resolve, of_ofSlots] at h
  have hmem : ∃ i, (i, id) ∈ binders n 0 ss := by
    split at h
    · rename_i i id' hfind
      cases h
      exact ⟨i, List.mem_reverse.1 (List.mem_of_find?_eq_some hfind)⟩
    · obtain ⟨⟨i, id'⟩, hhead, heq⟩ := Option.map_eq_some_iff.1 h
      cases heq
      exact ⟨i, List.mem_of_head? hhead⟩
  obtain ⟨i, hi⟩ := hmem
  exact (of_binders hi).2.2

/-- No variable is listed without an assignment. -/
theorem assigned_ne_nil (ss : List Slot) :
    ∀ e ∈ (ofSlots ss).assigned, e.2 ≠ [] := by
  have hput : ∀ (t : Table String (List (Nat × NodeId))) (n : String) (x : List (Nat × NodeId)),
      (∀ e ∈ t, e.2 ≠ []) → x ≠ [] → ∀ e ∈ Table.put n x t, e.2 ≠ [] := by
    intro t n x ht hx
    induction t with
    | nil => exact List.forall_mem_singleton.2 hx
    | cons e t ih =>
      obtain ⟨j, y⟩ := e
      obtain ⟨he, ht⟩ := List.forall_mem_cons.1 ht
      rw [Table.put]
      split
      · exact List.forall_mem_cons.2 ⟨hx, ht⟩
      · exact List.forall_mem_cons.2 ⟨he, ih ht⟩
  have hall : ∀ (b : Bindings) (position : Nat), (∀ e ∈ b.assigned, e.2 ≠ []) →
      ∀ e ∈ (b.addAll position ss).assigned, e.2 ≠ [] := by
    induction ss with
    | nil => exact fun b position h => h
    | cons s ss ih =>
      intro b position h
      refine ih (b.add position s) (position + 1) ?_
      rcases s with ⟨id, kind, span, _ | target, e⟩ | ⟨id, span, d⟩
      · exact h
      · exact hput _ _ _ h (List.append_ne_nil_of_right_ne_nil _ (List.cons_ne_nil _ _))
      · exact h
  exact hall ⟨[], []⟩ 0 fun e he => by cases he

/-- The last assignments of all variables, looked up. -/
theorem get?_filterMap_getLast? (n : String) {t : Table String (List (Nat × NodeId))}
    (ht : ∀ e ∈ t, e.2 ≠ []) :
    Table.get? n (t.filterMap fun (name, bound) => bound.getLast?.map fun (_, id) => (name, id))
      = (((Table.get? n t).getD []).getLast?).map Prod.snd := by
  induction t with
  | nil => rfl
  | cons e t ih =>
    obtain ⟨m, bound⟩ := e
    obtain ⟨hbound, ht⟩ := List.forall_mem_cons.1 ht
    obtain ⟨⟨i, id⟩, hlast⟩ : ∃ x, bound.getLast? = some x :=
      ⟨_, List.getLast?_eq_some_getLast hbound⟩
    rw [List.filterMap_cons]
    simp only [hlast, Option.map_some, Table.get?]
    split
    · simp [hlast]
    · exact ih ht

/-- For functions, a variable stands for its last assignment of all. -/
theorem get?_globals (ss : List Slot) (n : String) :
    Table.get? n (ofSlots ss).globals = (binders n 0 ss).getLast?.map Prod.snd := by
  rw [globals, get?_filterMap_getLast? n (assigned_ne_nil ss), ← of_ofSlots]
  rfl

/-! ## Functions -/

theorem functions_addAll (b : Bindings) (position : Nat) (ss : List Slot) :
    (b.addAll position ss).functions
      = Table.merge b.functions (ss.filterMap fun s => s.defines?.map fun d => (d.name, s.id)) := by
  induction ss generalizing b position with
  | nil => rfl
  | cons s ss ih =>
    rw [addAll, ih]
    rcases s with ⟨id, kind, span, _ | target, e⟩ | ⟨id, span, d⟩ <;> rfl

theorem functions_ofSlots (ss : List Slot) :
    (ofSlots ss).functions
      = Table.ofList (ss.filterMap fun s => s.defines?.map fun d => (d.name, s.id)) :=
  functions_addAll _ _ _

theorem mem_calledNodes {b : Bindings} {calls : List String} {id : NodeId} {f : String} :
    (id, f) ∈ b.calledNodes calls ↔ f ∈ calls ∧ Table.get? f b.functions = some id := by
  rw [calledNodes, List.mem_filterMap]
  constructor
  · rintro ⟨g, hg, heq⟩
    obtain ⟨id', hid', heq⟩ := Option.map_eq_some_iff.1 heq
    cases heq
    exact ⟨hg, hid'⟩
  · rintro ⟨hf, hid⟩
    exact ⟨f, hf, by rw [hid]; rfl⟩

end Bindings

/-! ## Dependencies -/

namespace Dependencies

variable {pairs : List (NodeId × String)}

theorem mem_nodes {id : NodeId} : id ∈ (ofPairs pairs).nodes ↔ ∃ n, (id, n) ∈ pairs := by
  rw [ofPairs]
  simp only
  rw [NodeId.mem_set, Table.mem_keys_ofList, Table.keys, List.mem_map]
  constructor
  · rintro ⟨⟨id', n⟩, hmem, rfl⟩
    exact ⟨n, hmem⟩
  · rintro ⟨n, hmem⟩
    exact ⟨_, hmem, rfl⟩

theorem sorted_nodes (pairs : List (NodeId × String)) : NodeId.Sorted (ofPairs pairs).nodes :=
  NodeId.sorted_set _

theorem names_eq (pairs : List (NodeId × String)) :
    ∃ name : NodeId → String, (ofPairs pairs).names = (ofPairs pairs).nodes.map name ∧
      ∀ id ∈ (ofPairs pairs).nodes, (id, name id) ∈ pairs := by
  have hname : ∀ id ∈ (ofPairs pairs).nodes, Table.get? id (Table.ofList pairs)
      = some ((Table.get? id (Table.ofList pairs)).getD "") := by
    intro id hid
    obtain ⟨n, hn⟩ := Table.exists_get?_of_mem_keys (NodeId.mem_set.1 hid)
    rw [hn]
    rfl
  refine ⟨fun id => (Table.get? id (Table.ofList pairs)).getD "", ?_, fun id hid =>
    Table.mem_of_get?_ofList (hname id hid)⟩
  rw [← List.filterMap_eq_map]
  exact List.filterMap_congr hname

/-- The renamings: every name that is no function, with the parameter at its place. -/
theorem mem_renames {names : List String} {b : Bindings} {m p : String} :
    (m, p) ∈ ((names.zipIdx.filter fun (name, _) => !Table.has name b.functions).map
      fun (name, i) => (name, paramName i)) ↔
      ∃ i, names[i]? = some m ∧ Table.has m b.functions = false ∧ p = paramName i := by
  simp only [List.mem_map, List.mem_filter, Prod.exists, List.mem_zipIdx_iff_getElem?,
    Bool.not_eq_true', Prod.mk.injEq]
  constructor
  · rintro ⟨_, i, ⟨hi, hm⟩, rfl, rfl⟩
    exact ⟨i, hi, hm, rfl⟩
  · rintro ⟨i, hi, hm, rfl⟩
    exact ⟨m, i, ⟨hi, hm⟩, rfl, rfl⟩

/-- A variable that is no function is renamed to the parameter at the place of its node, if no other
name is given to the node and no other node has the name. -/
theorem renamed_eq (b : Bindings) {id : NodeId} {n : String} (hmem : (id, n) ∈ pairs)
    (hname : ∀ m, (id, m) ∈ pairs → m = n) (hid : ∀ j, (j, n) ∈ pairs → j = id)
    (hn : Table.has n b.functions = false) :
    ∃ i, Expr.renamed ((ofPairs pairs).renames b) n = paramName i ∧
      (ofPairs pairs).nodes[i]? = some id := by
  obtain ⟨name, hnames, hpairs⟩ := names_eq pairs
  obtain ⟨i, hi⟩ := List.mem_iff_getElem?.1 (mem_nodes.2 ⟨n, hmem⟩)
  have hni : (ofPairs pairs).names[i]? = some n := by
    rw [hnames, List.getElem?_map, hi, Option.map_some,
      hname _ (hpairs id (mem_nodes.2 ⟨n, hmem⟩))]
  obtain ⟨p, hp⟩ := Table.exists_get?_of_mem_keys (Table.mem_keys_ofList.2
    (List.mem_map_of_mem (f := Prod.fst) (mem_renames.2 ⟨i, hni, hn, rfl⟩)))
  obtain ⟨i', hi', -, rfl⟩ := mem_renames.1 (Table.mem_of_get?_ofList hp)
  refine ⟨i', by rw [Expr.renamed, renames, hp]; rfl, ?_⟩
  rw [hnames, List.getElem?_map] at hi'
  obtain ⟨j, hj, rfl⟩ := Option.map_eq_some_iff.1 hi'
  rw [hj, hid j (hpairs j (List.mem_of_getElem? hj))]

/-- A name that is a function, or that nothing stands for, is not renamed. -/
theorem renamed_eq_self (b : Bindings) {n : String}
    (h : Table.has n b.functions = true ∨ ∀ id, (id, n) ∉ pairs) :
    Expr.renamed ((ofPairs pairs).renames b) n = n := by
  obtain ⟨name, hnames, hpairs⟩ := names_eq pairs
  rw [Expr.renamed]
  cases hget : Table.get? n ((ofPairs pairs).renames b) with
  | none => rfl
  | some p =>
    obtain ⟨⟨m, i⟩, hmem, heq⟩ := List.mem_map.1 (Table.mem_of_get?_ofList hget)
    cases heq
    obtain ⟨hmem, hm⟩ := List.mem_filter.1 hmem
    rcases h with h | h
    · simp [h] at hm
    · have hmem : n ∈ (ofPairs pairs).names := by
        rw [List.mem_zipIdx_iff_getElem?] at hmem
        exact List.mem_of_getElem? hmem
      rw [hnames, List.mem_map] at hmem
      obtain ⟨id, hid, rfl⟩ := hmem
      exact absurd (hpairs id hid) (h id)

end Dependencies

end ReactiveScript

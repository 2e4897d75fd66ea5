import Mathlib.Data.List.Sort
import Mathlib.Data.String.Basic
import ReactiveScript.Graph

/-!
# Sets of nodes

A set of nodes is a list in the strict order of its ids.  This file shows that the operations of
`NodeId` keep lists in that order, and what is in them; two such lists with the same members are
equal, so an order on sets never has to be chosen.
-/

set_option autoImplicit false

namespace ReactiveScript

namespace NodeId

/-- The list is in the strict order of the ids. -/
def Sorted (ns : List NodeId) : Prop := ns.Pairwise fun m n => m.text < n.text

theorem eq_of_text_eq {m n : NodeId} (h : m.text = n.text) : m = n := by
  cases m
  cases n
  simpa using h

theorem text_lt_of_not_lt_of_ne {m n : NodeId} (h : ¬ m.text < n.text) (hne : m ≠ n) :
    n.text < m.text := by
  rcases lt_trichotomy m.text n.text with hlt | heq | hgt
  · exact absurd hlt h
  · exact absurd (eq_of_text_eq heq) hne
  · exact hgt

theorem Sorted.nodup {ns : List NodeId} (h : Sorted ns) : ns.Nodup := by
  refine List.Pairwise.imp (fun {m n} hlt heq => ?_) h
  rw [heq] at hlt
  exact lt_irrefl _ hlt

theorem Sorted.insert {n : NodeId} {ns : List NodeId} (h : Sorted ns) :
    Sorted (NodeId.insert n ns) := by
  induction ns with
  | nil => simp [NodeId.insert, Sorted]
  | cons m ms ih =>
    obtain ⟨hm, hms⟩ := List.pairwise_cons.1 h
    rw [NodeId.insert]
    split
    · rename_i hlt
      refine List.pairwise_cons.2 ⟨fun k hk => ?_, h⟩
      rcases List.mem_cons.1 hk with rfl | hk
      · exact hlt
      · exact lt_trans hlt (hm k hk)
    · rename_i hlt
      split
      · exact h
      · rename_i hne
        refine List.pairwise_cons.2 ⟨fun k hk => ?_, ih hms⟩
        rcases mem_insert.1 hk with rfl | hk
        · exact text_lt_of_not_lt_of_ne hlt hne
        · exact hm k hk

theorem Sorted.erase {n : NodeId} {ns : List NodeId} (h : Sorted ns) : Sorted (ns.erase n) :=
  List.Pairwise.sublist List.erase_sublist h

theorem sorted_set (ns : List NodeId) : Sorted (set ns) := by
  induction ns with
  | nil => exact List.Pairwise.nil
  | cons n ns ih => exact ih.insert

@[simp] theorem mem_set {n : NodeId} {ns : List NodeId} : n ∈ set ns ↔ n ∈ ns := by
  induction ns with
  | nil => exact Iff.rfl
  | cons m ms ih =>
    have hcons : set (m :: ms) = NodeId.insert m (set ms) := rfl
    rw [hcons, mem_insert, ih, List.mem_cons]

/-- Sets are determined by what is in them. -/
theorem Sorted.eq_of_mem_iff {ms ns : List NodeId} (hm : Sorted ms) (hn : Sorted ns)
    (h : ∀ k, k ∈ ms ↔ k ∈ ns) : ms = ns := by
  have : Std.Irrefl fun m n : NodeId => m.text < n.text := ⟨fun m => lt_irrefl m.text⟩
  have : Std.Asymm fun m n : NodeId => m.text < n.text := ⟨fun m n hmn => lt_asymm hmn⟩
  exact List.Pairwise.eq_of_mem_iff hm hn h

theorem Sorted.set_eq {ns : List NodeId} (h : Sorted ns) : set ns = ns :=
  (sorted_set ns).eq_of_mem_iff h fun _ => mem_set

@[simp] theorem mem_distinct {n : NodeId} {ns : List NodeId} : n ∈ distinct ns ↔ n ∈ ns := by
  induction ns with
  | nil => exact Iff.rfl
  | cons m ms ih =>
    rw [distinct, List.mem_cons, List.mem_filter, ih, List.mem_cons]
    by_cases h : n = m <;> simp [h]

theorem set_distinct (ns : List NodeId) : set (distinct ns) = set ns :=
  (sorted_set _).eq_of_mem_iff (sorted_set _) fun n => by simp

theorem insert_of_mem {n : NodeId} {ns : List NodeId} (hs : Sorted ns) (hn : n ∈ ns) :
    insert n ns = ns := by
  refine hs.insert.eq_of_mem_iff hs fun m => ?_
  rw [mem_insert]
  exact ⟨fun hm => hm.elim (fun heq => heq ▸ hn) id, Or.inr⟩

theorem nodup_distinct (ns : List NodeId) : (distinct ns).Nodup := by
  induction ns with
  | nil => exact List.nodup_nil
  | cons m ms ih => exact List.nodup_cons.2 ⟨by simp, ih.filter _⟩

theorem distinct_of_nodup {ns : List NodeId} (h : ns.Nodup) : distinct ns = ns := by
  induction ns with
  | nil => rfl
  | cons m ms ih =>
    obtain ⟨hm, hms⟩ := List.nodup_cons.1 h
    rw [distinct, ih hms, List.filter_eq_self.2]
    intro n hn
    simpa using fun heq : n = m => hm (heq ▸ hn)

end NodeId

end ReactiveScript

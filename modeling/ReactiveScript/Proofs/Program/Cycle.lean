import Mathlib.Data.List.Nodup
import Mathlib.Logic.Relation
import Mathlib.Order.WellFounded
import ReactiveScript.Program.Cycle

/-!
# The search for a cycle is exact

A node is settled if no path from it along dependencies goes on for ever.  The search keeps to this:
whatever it has entered and left again is settled, and every dependency of a node on its path is
still to be followed, is settled, or is the next node of the path.

* `Cycle.Settled` — dependencies lead from a node to an end, whichever are followed.
* `Cycle.closes_of_find?` — what `Cycle.find?` finds closes a cycle.
* `Cycle.find?_eq_none_iff` — `Cycle.find?` finds nothing if and only if there is no cycle.
-/

set_option autoImplicit false

namespace ReactiveScript

namespace Cycle

open Relation

variable {next : NodeId → List NodeId} {fresh fresh' : List NodeId} {path : List Stop}

/-- One node has another one among its dependencies. -/
def Leads (next : NodeId → List NodeId) (a b : NodeId) : Prop := b ∈ next a

/-- Following dependencies from a node comes to an end. -/
def Settled (next : NodeId → List NodeId) (a : NodeId) : Prop := Acc (flip (Leads next)) a

/-! ## The path of the search -/

/-- A stop on the path; `entered` is the next node of the path, if there is one. -/
structure Stop.Sound (next : NodeId → List NodeId) (entered : Option NodeId) (s : Stop) : Prop where
  /-- Only dependencies are followed. -/
  left_subset : s.left ⊆ next s.node
  /-- The next node of the path is a dependency. -/
  leads : ∀ d, entered = some d → Leads next s.node d
  /-- No dependency is forgotten. -/
  accounted : ∀ d, Leads next s.node d → d ∈ s.left ∨ Settled next d ∨ entered = some d

/-- The stops of a path, the one that was entered last first. -/
def SoundPath (next : NodeId → List NodeId) : Option NodeId → List Stop → Prop
  | _, [] => True
  | entered, s :: path => s.Sound next entered ∧ SoundPath next (some s.node) path

theorem Stop.sound_start (next : NodeId → List NodeId) (n : NodeId) :
    Stop.Sound next none ⟨n, next n⟩ where
  left_subset := List.Subset.refl _
  leads := nofun
  accounted _ hd := Or.inl hd

namespace Stop.Sound

variable {n d : NodeId} {ds : List NodeId}

/-- The next dependency is entered. -/
theorem enter (h : Stop.Sound next none ⟨n, d :: ds⟩) : Stop.Sound next (some d) ⟨n, ds⟩ where
  left_subset _ he := h.left_subset (List.mem_cons_of_mem _ he)
  leads _ he := Option.some.inj he ▸ h.left_subset List.mem_cons_self
  accounted e he := by
    rcases h.accounted e he with hleft | hsettled | hentered
    · rcases List.mem_cons.1 hleft with rfl | hleft
      · exact Or.inr (Or.inr rfl)
      · exact Or.inl hleft
    · exact Or.inr (Or.inl hsettled)
    · cases hentered

/-- The search goes on once the node that was entered is settled. -/
theorem leave (h : Stop.Sound next (some d) ⟨n, ds⟩) (hd : Settled next d) :
    Stop.Sound next none ⟨n, ds⟩ where
  left_subset := h.left_subset
  leads := nofun
  accounted e he := by
    rcases h.accounted e he with hleft | hsettled | hentered
    · exact Or.inl hleft
    · exact Or.inr (Or.inl hsettled)
    · exact Or.inr (Or.inl (Option.some.inj hentered ▸ hd))

/-- A node of which all dependencies have been followed is settled. -/
theorem settled (h : Stop.Sound next none ⟨n, []⟩) : Settled next n := by
  refine Acc.intro n fun d hd => ?_
  rcases h.accounted d hd with hleft | hsettled | hentered
  · cases hleft
  · exact hsettled
  · cases hentered

end Stop.Sound

namespace SoundPath

theorem leave {n : NodeId} (h : SoundPath next (some n) path) (hn : Settled next n) :
    SoundPath next none path := by
  cases path with
  | nil => trivial
  | cons s path => exact ⟨h.1.leave hn, h.2⟩

/-- Every stop leads to the one that was entered last. -/
theorem reaches {s t : Stop} {entered : Option NodeId} (h : SoundPath next entered (s :: path))
    (ht : t ∈ s :: path) : ReflTransGen (Leads next) t.node s.node := by
  induction path generalizing s entered with
  | nil =>
    obtain rfl := List.mem_singleton.1 ht
    exact .refl
  | cons u path ih =>
    rcases List.mem_cons.1 ht with rfl | ht
    · exact .refl
    · exact (ih h.2 ht).tail (h.2.1.leads _ rfl)

end SoundPath

/-! ## The search -/

/-- What comes of a search from some nodes: they are settled, as are all nodes that are no longer
fresh, or an edge closes a cycle. -/
def Searched (next : NodeId → List NodeId) (nodes : List NodeId) :
    Except Edge (List NodeId) → Prop
  | .ok fresh => (∀ n ∈ nodes, Settled next n) ∧ ∀ n, n ∉ fresh → Settled next n
  | .error e => Leads next e.node e.dependency ∧ ReflTransGen (Leads next) e.dependency e.node

theorem Searched.mono {nodes nodes' : List NodeId} {o : Except Edge (List NodeId)}
    (h : Searched next nodes o)
    (hsub : (∀ n ∈ nodes, Settled next n) → ∀ n ∈ nodes', Settled next n) :
    Searched next nodes' o := by
  cases o with
  | ok fresh => exact ⟨hsub h.1, h.2⟩
  | error e => exact h

/-- Following a path settles its nodes, or closes a cycle. -/
theorem searched_follow (next : NodeId → List NodeId) (fresh : List NodeId) (path : List Stop)
    (hpath : SoundPath next none path)
    (hleft : ∀ n, n ∉ fresh → n ∉ path.map Stop.node → Settled next n) :
    Searched next (path.map Stop.node) (follow next fresh path) := by
  fun_induction follow next fresh path with
  | case1 fresh => exact ⟨nofun, fun n hn => hleft n hn List.not_mem_nil⟩
  | case2 fresh n path ih =>
    have hn : Settled next n := hpath.1.settled
    refine (ih (hpath.2.leave hn) fun m hm hmpath => ?_).mono fun h => List.forall_mem_cons.2 ⟨hn, h⟩
    by_cases heq : m = n
    · exact heq ▸ hn
    · exact hleft m hm (by simp [heq, hmpath])
  | case3 fresh n d ds path hclosing =>
    refine ⟨hpath.1.left_subset List.mem_cons_self, ?_⟩
    rcases hclosing with rfl | hmem
    · exact .refl
    · obtain ⟨s, hs, rfl⟩ := List.mem_map.1 hmem
      exact hpath.reaches (List.mem_cons_of_mem _ hs)
  | case4 fresh n d ds path hclosing hd ih =>
    -- The dependency is no longer fresh, but it is on the path.
    refine (ih ⟨Stop.sound_start next d, hpath.1.enter, hpath.2⟩ fun m hm hmpath => ?_).mono
      fun h => (List.forall_mem_cons.1 h).2
    simp only [List.map_cons, List.mem_cons, not_or] at hmpath
    refine hleft m (fun hmem => hm ?_) (by simp [hmpath.2.1, hmpath.2.2])
    exact (List.mem_erase_of_ne hmpath.1).2 hmem
  | case5 fresh n d ds path hclosing hd ih =>
    have hsettled : Settled next d := hleft d hd (by simpa using hclosing)
    exact ih ⟨hpath.1.enter.leave hsettled, hpath.2⟩ hleft

/-- Searching from every node of a list settles them all, or closes a cycle. -/
theorem searched_search (next : NodeId → List NodeId) (fresh nodes : List NodeId)
    (hleft : ∀ n, n ∉ fresh → Settled next n) :
    Searched next nodes (search next fresh nodes) := by
  induction nodes generalizing fresh with
  | nil => exact ⟨nofun, hleft⟩
  | cons n nodes ih =>
    rw [search]
    split
    · have hfollow := searched_follow next (fresh.erase n) [⟨n, next n⟩]
        ⟨Stop.sound_start next n, trivial⟩ fun m hm hmpath => by
          have hne : m ≠ n := by simpa using hmpath
          exact hleft m fun hmem => hm ((List.mem_erase_of_ne hne).2 hmem)
      cases hresult : follow next (fresh.erase n) [⟨n, next n⟩] with
      | error e =>
        rw [hresult] at hfollow
        exact hfollow
      | ok fresh =>
        rw [hresult] at hfollow
        exact (ih fresh hfollow.2).mono fun h =>
          List.forall_mem_cons.2 ⟨hfollow.1 n (List.mem_singleton_self n), h⟩
    · rename_i hn
      exact (ih fresh hleft).mono fun h => List.forall_mem_cons.2 ⟨hleft n hn, h⟩

/-! ## The declarations of a program -/

variable {nodes : List Declaration}

/-- What is declared for an id are the dependencies of its node. -/
theorem declared_of_mem (hids : (nodes.map Declaration.id).Nodup) {d : Declaration}
    (hd : d ∈ nodes) : declared nodes d.id = d.dependencies := by
  obtain ⟨d', hfind⟩ : ∃ d', nodes.find? (·.id == d.id) = some d' :=
    Option.isSome_iff_exists.1 (List.find?_isSome.2 ⟨d, hd, beq_self_eq_true d.id⟩)
  have hid : d'.id = d.id := by simpa using List.find?_some hfind
  obtain rfl := List.inj_on_of_nodup_map hids (List.mem_of_find?_eq_some hfind) hd hid
  rw [declared, hfind]
  rfl

/-- Only nodes have dependencies. -/
theorem mem_ids_of_leads_declared {a b : NodeId} (h : Leads (declared nodes) a b) :
    a ∈ nodes.map Declaration.id := by
  rw [Leads, declared] at h
  cases hfind : nodes.find? (·.id == a) with
  | none => simp [hfind] at h
  | some d => exact List.mem_map.2 ⟨d, List.mem_of_find?_eq_some hfind, by
      simpa using List.find?_some hfind⟩

theorem searched_declared (nodes : List Declaration) :
    Searched (declared nodes) (nodes.map Declaration.id)
      (search (declared nodes) (nodes.map Declaration.id) (nodes.map Declaration.id)) :=
  searched_search _ _ _ fun n hn =>
    Acc.intro n fun _ hd => absurd (mem_ids_of_leads_declared hd) hn

/-- **The edge that the search reports closes a cycle.** -/
theorem closes_of_find? {e : Edge} (h : find? nodes = some e) :
    Leads (declared nodes) e.node e.dependency ∧
      ReflTransGen (Leads (declared nodes)) e.dependency e.node := by
  have hsearched := searched_declared nodes
  rw [find?] at h
  split at h
  · cases h
  · rename_i hresult
    rw [hresult] at hsearched
    cases h
    exact hsearched

/-- **The search finds nothing if and only if there is no cycle.** -/
theorem find?_eq_none_iff :
    find? nodes = none ↔ ∀ a, ¬ TransGen (Leads (declared nodes)) a a := by
  constructor
  · intro h
    have hsearched := searched_declared nodes
    rw [find?] at h
    split at h
    · rename_i fresh hresult
      rw [hresult] at hsearched
      have hsettled : WellFounded (flip (Leads (declared nodes))) := ⟨fun a => by
        by_cases ha : a ∈ nodes.map Declaration.id
        · exact hsearched.1 a ha
        · exact Acc.intro a fun _ hd => absurd (mem_ids_of_leads_declared hd) ha⟩
      intro a ha
      exact hsettled.transGen.irrefl.irrefl a (transGen_swap.2 ha)
    · cases h
  · intro h
    cases hfind : find? nodes with
    | none => rfl
    | some e =>
      obtain ⟨hleads, hback⟩ := closes_of_find? hfind
      exact absurd (TransGen.head' hleads hback) (h e.node)

end Cycle

end ReactiveScript

import ReactiveScript.Proofs.Graph.Linear
import ReactiveScript.Proofs.Program.Accepted

/-!
# Nodes in the order of the source

Ids are padded, so that their order is that of the source, and a graph takes the least id first
among the nodes that are ready.  So independent nodes are executed in the order of the source, as
far as positions fit the widths: what is longer is spelt with more digits, and then its id is
compared by the digits that it begins with (`Span.ReadsBefore`).

* `Program.LooksBack` — every node depends on earlier ones only.
* `Program.SpeltInOrder` — every node has an id before those of the later ones that could be taken
  in its place.
* `Script.ids_in_order_iff_spelt` — what the order of ids and the order of execution are.
-/

set_option autoImplicit false

namespace ReactiveScript

namespace Slot

theorem span_of_slot? {s : Stmt} {slot : Slot} (h : s.slot? = some slot) : slot.span = s.span := by
  cases s with
  | assign | expr | define =>
    cases h
    rfl
  | _ => cases h

end Slot

namespace Program

variable {p : Program} {limit : Nat} {g : Graph}

/-- Every node depends on earlier ones only. -/
def LooksBack (p : Program) : Prop :=
  ∀ before d after, p.nodes = before ++ d :: after →
    d.dependencies ⊆ before.map Declaration.id

/-- Every node is spelt before the later ones that could be taken in its place: those that depend on
nothing but what comes before it. -/
def SpeltInOrder (p : Program) : Prop :=
  ∀ before d after, p.nodes = before ++ d :: after →
    ∀ d' ∈ after, d'.dependencies ⊆ before.map Declaration.id → d.span.ReadsBefore d'.span

namespace Installed

theorem dependenciesOf_subset_iff (h : p.Installed limit g) {d : Declaration} (hd : d ∈ p.nodes)
    {ids : List NodeId} : g.dependenciesOf d.id ⊆ ids ↔ d.dependencies ⊆ ids :=
  forall_congr' fun _ => imp_congr_left (h.mem_dependencies hd)

/-- If every node depends on earlier ones only, then the nodes can be executed as they stand. -/
theorem linear (h : p.Installed limit g) (hids : (p.nodes.map Declaration.id).Nodup)
    (hback : p.LooksBack) : g.Linear (p.nodes.map Declaration.id) where
  nodup := hids
  mem_iff id := (h.mem_ids id).symm
  mem_of_dependsOn pre a post hsplit b hab := by
    obtain ⟨before, rest, hnodes, rfl, hrest⟩ := List.map_eq_append_iff.1 hsplit
    obtain ⟨d, after, rfl, rfl, rfl⟩ := List.map_eq_cons_iff.1 hrest
    have hd : d ∈ p.nodes := hnodes ▸ List.mem_append_right _ List.mem_cons_self
    exact hback before d after hnodes ((h.mem_dependencies hd).1 hab)

/-- The nodes are executed as they stand if and only if every one has its id before those of the
later ones that could be taken in its place. -/
theorem order_eq_iff (h : p.Installed limit g) (hids : (p.nodes.map Declaration.id).Nodup)
    (hback : p.LooksBack) :
    g.order = p.nodes.map Declaration.id ↔ ∀ before d after, p.nodes = before ++ d :: after →
      ∀ d' ∈ after, d'.dependencies ⊆ before.map Declaration.id → d.id.text < d'.id.text := by
  rw [h.wellFormed.order_eq_iff (h.linear hids hback)]
  constructor
  · intro hleast before d after hnodes d' hd' hsub
    have hmem : d' ∈ p.nodes := hnodes ▸ by simp [hd']
    exact hleast (before.map Declaration.id) d.id (after.map Declaration.id) (by simp [hnodes])
      d'.id (List.mem_map_of_mem hd') ((h.dependenciesOf_subset_iff hmem).2 hsub)
  · intro hleast pre a post hsplit b hb hsub
    obtain ⟨before, rest, hnodes, rfl, hrest⟩ := List.map_eq_append_iff.1 hsplit
    obtain ⟨d, after, rfl, rfl, rfl⟩ := List.map_eq_cons_iff.1 hrest
    obtain ⟨d', hd', rfl⟩ := List.mem_map.1 hb
    have hmem : d' ∈ p.nodes := hnodes ▸ by simp [hd']
    exact hleast before d after hnodes d' hd' ((h.dependenciesOf_subset_iff hmem).1 hsub)

end Installed

end Program

namespace Script

variable {source : String} {script : Script} {p : Program}

/-- Of two statements that have been read, the first stands before the other one. -/
theorem before_of_ofSource (h : ofSource source = .ok script) {s t : Stmt}
    (hst : [s, t].Sublist script.body) : s.span.Before t.span := by
  have hpair := (List.pairwise_map.1 (sorted_spans_of_ofSource h)).sublist hst
  exact (List.pairwise_cons.1 hpair).1 t List.mem_cons_self

namespace SplitsInto

/-- The nodes stand in the order of the source. -/
theorem pairwise_before (h : script.SplitsInto p) (hscript : ofSource source = .ok script) :
    p.nodes.Pairwise fun d d' => d.span.Before d'.span := by
  have hslots : (script.slots.map Slot.span).Pairwise Span.Before := by
    rw [slots, List.pairwise_map, List.pairwise_filterMap]
    refine (List.pairwise_map.1 (sorted_spans_of_ofSource hscript)).imp fun hbefore a ha b hb => ?_
    rwa [Slot.span_of_slot? ha, Slot.span_of_slot? hb]
  rw [← Slot.map_declareAll Slot.span_declare h.nodes] at hslots
  exact List.pairwise_map.1 hslots

theorem before_of_mem_after (h : script.SplitsInto p) (hscript : ofSource source = .ok script)
    {before after : List Declaration} {d d' : Declaration} (hnodes : p.nodes = before ++ d :: after)
    (hd' : d' ∈ after) : d.span.Before d'.span := by
  have hpair := hnodes ▸ h.pairwise_before hscript
  exact (List.pairwise_cons.1 (List.pairwise_append.1 hpair).2.1).1 d' hd'

/-- The id of a node spells where its statement stands. -/
theorem exists_id_eq (h : script.SplitsInto p) {d : Declaration} (hd : d ∈ p.nodes) :
    ∃ s ∈ script.body, ∃ kind, d.span = s.span ∧ d.id = .ofStatement kind s.span := by
  obtain ⟨before, slot, after, hslots, hdeclare⟩ := h.exists_slot hd
  have hslot : slot ∈ script.slots := hslots ▸ by simp
  obtain ⟨s, hs, hslot⟩ := List.mem_filterMap.1 hslot
  obtain ⟨kind, hid⟩ := Stmt.id_slot? hslot
  exact ⟨s, hs, kind, (Slot.span_declare hdeclare).trans (Slot.span_of_slot? hslot),
    (Slot.id_declare hdeclare).trans hid⟩

/-- The ids of two nodes stand in the order of the source if and only if the positions are spelt
so. -/
theorem id_lt_iff (h : script.SplitsInto p) {d d' : Declaration} (hd : d ∈ p.nodes)
    (hd' : d' ∈ p.nodes) (hbefore : d.span.Before d'.span) :
    d.id.text < d'.id.text ↔ d.span.ReadsBefore d'.span := by
  obtain ⟨s, -, kind, hspan, hid⟩ := h.exists_id_eq hd
  obtain ⟨s', -, kind', hspan', hid'⟩ := h.exists_id_eq hd'
  rw [hid, hid', ← hspan, ← hspan']
  exact NodeId.ofStatement_lt_iff hbefore

/-- Positions that fit the widths are spelt in the order of the source. -/
theorem speltInOrder (h : script.SplitsInto p) (hscript : ofSource source = .ok script)
    (hfits : script.FitsIds) : p.SpeltInOrder := by
  intro before d after hnodes d' hd' _
  obtain ⟨s, hs, -, hspan, -⟩ := h.exists_id_eq (hnodes ▸ by simp [hd'] : d' ∈ p.nodes)
  exact (h.before_of_mem_after hscript hnodes hd').readsBefore (hspan ▸ hfits s hs)

/-- A program whose nodes depend on earlier ones only is executed in the order of the source if and
only if its nodes are spelt in order. -/
theorem order_eq_iff (h : script.SplitsInto p) (hscript : ofSource source = .ok script)
    {limit : Nat} {g : Graph} (hg : p.Installed limit g) (hback : p.LooksBack) :
    g.order = p.nodes.map Declaration.id ↔ p.SpeltInOrder := by
  have hlt : ∀ before d after, p.nodes = before ++ d :: after → ∀ d' ∈ after,
      (d.id.text < d'.id.text ↔ d.span.ReadsBefore d'.span) := fun before d after hnodes d' hd' =>
    h.id_lt_iff (hnodes ▸ by simp) (hnodes ▸ by simp [hd'])
      (h.before_of_mem_after hscript hnodes hd')
  rw [hg.order_eq_iff h.nodup_nodes hback]
  constructor
  · intro hids before d after hnodes d' hd' hsub
    exact (hlt before d after hnodes d' hd').1 (hids before d after hnodes d' hd' hsub)
  · intro hspelt before d after hnodes d' hd' hsub
    exact (hlt before d after hnodes d' hd').2 (hspelt before d after hnodes d' hd' hsub)

end SplitsInto

/-- **Ids stand in the order of the source if and only if the positions are spelt so.**  That goes
for any two statements, whatever their kinds.  A program whose nodes depend on earlier ones only is
executed in the order of the source if and only if every node is spelt before those of the later
ones that could be taken in its place.  If all positions fit the widths of ids, everything is spelt
in order. -/
theorem ids_in_order_iff_spelt (h : ofSource source = .ok script) :
    (∀ s t, [s, t].Sublist script.body → ∀ kind kind',
      (NodeId.ofStatement kind s.span).text < (NodeId.ofStatement kind' t.span).text ↔
        s.span.ReadsBefore t.span) ∧
    (∀ file p, Program.ofSource file source = .ok p →
      (p.nodes.Pairwise fun d d' => d.span.Before d'.span) ∧
      (p.LooksBack → ∀ limit retry timeout,
        ∃ g, p.install limit (.empty retry timeout) = .ok g ∧
          (g.order = p.nodes.map Declaration.id ↔ p.SpeltInOrder))) ∧
    (script.FitsIds →
      (∀ s t, [s, t].Sublist script.body → s.span.ReadsBefore t.span) ∧
      ∀ file p, Program.ofSource file source = .ok p → p.SpeltInOrder) := by
  have hsplit : ∀ file p, Program.ofSource file source = .ok p → script.SplitsInto p := by
    intro file p hp
    obtain ⟨script', hscript', hsplits, -⟩ := exists_splitsInto_of_ofSource hp
    cases h.symm.trans hscript'
    exact hsplits
  refine ⟨fun s t hst kind kind' => NodeId.ofStatement_lt_iff (before_of_ofSource h hst),
    fun file p hp => ⟨(hsplit file p hp).pairwise_before h, fun hback limit retry timeout => ?_⟩,
    fun hfits => ⟨fun s t hst => ?_, fun file p hp => (hsplit file p hp).speltInOrder h hfits⟩⟩
  · obtain ⟨g, hinstall, hg⟩ :=
      Program.exists_installed hp (hsplit file p hp) limit retry timeout
    exact ⟨g, hinstall, (hsplit file p hp).order_eq_iff h hg hback⟩
  · exact (before_of_ofSource h hst).readsBefore (hfits t (hst.subset (by simp)))

/-- A text that reads a variable assigned above it, with a statement on its own in between. -/
def behindText : String := "x = None\ndivider()\ntext(str(x))\n"

/-- The script that it spells. -/
def behindScript : Script := ⟨[
  .assign ⟨1, 1⟩ "x" (.literal ⟨1, 5⟩ .null),
  .expr ⟨2, 1⟩ (.call ⟨2, 1⟩ "divider" [] []),
  .expr ⟨3, 1⟩ (.call ⟨3, 1⟩ "text" [.call ⟨3, 6⟩ "str" [.name ⟨3, 10⟩ "x"] []] [])]⟩

/-- Its nodes: the last one depends on the first one. -/
def behindProgram : Program where
  file := "app.tr"
  nodes := [
    ⟨⟨"atom_00001_001_expr"⟩, "expr", ⟨1, 1⟩, some "x", [], [],
      .expression (.literal ⟨1, 5⟩ .null), false⟩,
    ⟨⟨"atom_00002_001_divider"⟩, "divider", ⟨2, 1⟩, none, [], [],
      .expression (.call ⟨2, 1⟩ "divider" [] []), false⟩,
    ⟨⟨"atom_00003_001_text"⟩, "text", ⟨3, 1⟩, none, [⟨"atom_00001_001_expr"⟩], ["x"],
      .expression (.call ⟨3, 1⟩ "text" [.call ⟨3, 6⟩ "str" [.name ⟨3, 10⟩ "param0"] []] []), false⟩]
  functions := []
  globals := [("x", ⟨"atom_00001_001_expr"⟩)]

/-- The theorem applies to a text that reads a variable assigned above. -/
theorem ids_in_order_iff_spelt_of_behind :
    ofSource behindText = .ok behindScript ∧
      Program.ofSource "app.tr" behindText = .ok behindProgram ∧
      ∃ g, behindProgram.install 64 (.empty none none) = .ok g ∧
        g.order = behindProgram.nodes.map Declaration.id := by
  have hscript : ofSource behindText = .ok behindScript := by cbv
  have hsplit : Program.ofScript "app.tr" behindScript = .ok behindProgram := by cbv
  have hsource : Program.ofSource "app.tr" behindText = .ok behindProgram := by
    rw [Program.ofSource, hscript]
    exact hsplit
  have hfits : behindScript.FitsIds := by
    simp [FitsIds, behindScript, Stmt.span]
  have hback : behindProgram.LooksBack := by
    rintro (_ | ⟨_, _ | ⟨_, _ | ⟨_, before⟩⟩⟩) d after hnodes
    · cases hnodes
      exact List.nil_subset _
    · cases hnodes
      exact List.nil_subset _
    · cases hnodes
      exact List.cons_subset.2 ⟨List.mem_cons_self, List.nil_subset _⟩
    · cases before <;> cases hnodes
  obtain ⟨-, horder, hspelt⟩ := ids_in_order_iff_spelt hscript
  obtain ⟨g, hinstall, hiff⟩ := (horder _ _ hsource).2 hback 64 none none
  exact ⟨hscript, hsource, g, hinstall, hiff.2 ((hspelt hfits).2 _ _ hsource)⟩

end Script

end ReactiveScript

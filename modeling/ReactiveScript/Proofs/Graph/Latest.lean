import ReactiveScript.Proofs.Graph.Blocked
import ReactiveScript.Proofs.Graph.Selective

/-!
# What nodes emitted last

A node that completed shows what the last of its calls that completed has emitted, and no other node
shows anything, as long as every walk comes to its end.  A walk that breaks off leaves no report, so
nodes that completed in it go on to show what they emitted before.

* `Graph.latest?` — the last call of a node that completed.
* `Graph.ShowsLatest` — nodes show what they emitted last.
* `ShowsLatest.execute` — they go on to do so.
* `Graph.called_or_blamed_of_execute` — a node that a walk is to run is called, or blocked.
-/

set_option autoImplicit false

namespace ReactiveScript

/-- The units that a call emitted. -/
def Call.units (c : Call) : List OutputUnit := c.outcome.footprint.log.emitted.toList

namespace Graph

variable {g g' : Graph} {recompute : Option (List NodeId)} {inputs : InputTable} {id : NodeId}
  {r r' : Report} {calls past : List Call} {shown : NodeId → List OutputUnit}

/-- The last call of a node that completed. -/
def latest? (id : NodeId) (calls : List Call) : Option Call :=
  (calls.filter fun c => c.completes && c.visit.node == id).getLast?

/-- Calls of other nodes, and calls that failed, do not count. -/
theorem latest?_append_of_not (h : ∀ c ∈ calls, c.completes = true → c.visit.node ≠ id) :
    latest? id (past ++ calls) = latest? id past := by
  have hnone : (calls.filter fun c => c.completes && c.visit.node == id) = [] := by
    rw [List.filter_eq_nil_iff]
    intro c hc
    simp only [Bool.and_eq_true, beq_iff_eq, not_and]
    exact h c hc
  rw [latest?, latest?, List.filter_append, hnone, List.append_nil]

/-- The last call counts, if it completed. -/
theorem latest?_concat {c : Call} (hcompletes : c.completes = true) (hnode : c.visit.node = id) :
    latest? id (calls ++ [c]) = some c := by
  rw [latest?, List.filter_append, List.filter_cons_of_pos (by simp [hcompletes, hnode]),
    List.filter_nil, List.getLast?_concat]

/-- A node that completed shows what it emitted last, and no other node shows anything. -/
structure ShowsLatest (g : Graph) (calls : List Call) (shown : NodeId → List OutputUnit) :
    Prop where
  /-- A node that completed. -/
  of_completed : ∀ id n, g.node? id = some n → n.status = .completed →
    ∃ c, latest? id calls = some c ∧ shown id = c.units
  /-- Another node. -/
  of_not_completed : ∀ id n, g.node? id = some n → n.status ≠ .completed → shown id = []

/-! ## One turn -/

/-- The calls of a turn are those of its node. -/
theorem Turn.node_eq {o : Option Report} (h : Turn g recompute inputs id r calls o g') {c : Call}
    (hc : c ∈ calls) : c.visit.node = id := by
  cases h with
  | skipped | blocked => cases hc
  | ran _ _ _ hcalls =>
    rw [hcalls] at hc
    obtain ⟨⟨call, hvisit⟩, -⟩ := exists_visitOf_of_mem_attemptCalls hc
    rw [hvisit]
    rfl

/-- What a turn makes of its node: it is left as it was, or fails and shows nothing, or it completes
and shows what its last call emitted. -/
theorem Turn.latest (h : Turn g recompute inputs id r calls (some r') g') (hid : id ∉ r.mentions)
    (past : List Call) (shown : NodeId → List OutputUnit) :
    (calls = [] ∧ r' = r ∧ g' = g) ∨
    (∃ n, g'.node? id = some n ∧ n.status = .error ∧ r'.show shown id = []) ∨
    ∃ n c, g'.node? id = some n ∧ n.status = .completed ∧ latest? id (past ++ calls) = some c ∧
      r'.show shown id = c.units := by
  cases h with
  | skipped => exact Or.inl ⟨rfl, rfl, rfl⟩
  | @blocked n d hn =>
    refine Or.inr (Or.inl ⟨(n.blocked d).settle, ?_, rfl, Report.show_block_self⟩)
    rw [node?_update, if_pos rfl, hn]
    rfl
  | @ran n _ _ _ hn _ _ _ _ hattempted =>
    cases hattempted with
    | @completed f failures visit v r'' hf _ hvisit hresult hquiet =>
      obtain ⟨call, rfl⟩ := hvisit
      let last : Call := ⟨g.visitOf inputs id (g.arguments n.params) call,
        n.body (g.visitOf inputs id (g.arguments n.params) call)⟩
      have hcompletes : last.completes = true := Call.completes_iff.2 ⟨v, hresult⟩
      have hfn : (g.update id f).node? id = some (f n) := by
        rw [node?_update, if_pos rfl, hn]
        rfl
      obtain ⟨ds, hds, -⟩ := node?_complete hfn v
        (n.body (g.visitOf inputs id (g.arguments n.params) call)).footprint
      refine Or.inr (Or.inr ⟨_, last, hds, rfl, ?_, Report.show_complete_self ?_⟩)
      · rw [← List.append_assoc]
        exact latest?_concat hcompletes rfl
      · rwa [Report.mentions_of_quiet hquiet]
    | @failed f failures visit e r'' hf hend =>
      refine Or.inr (Or.inl ⟨f n, ?_, (hend n).1, Report.show_fail_self⟩)
      rw [node?_update, if_pos rfl, hn]
      rfl

/-- **Nodes show what they emitted last after a turn.** -/
theorem ShowsLatest.turn (h : g.ShowsLatest past (r.show shown))
    (hturn : Turn g recompute inputs id r calls (some r') g') (hid : id ∉ r.mentions) :
    g'.ShowsLatest (past ++ calls) (r'.show shown) := by
  have hother : ∀ j n', j ≠ id → g'.node? j = some n' → ∃ n, g.node? j = some n ∧
      n.status = n'.status ∧ latest? j (past ++ calls) = latest? j past ∧
      r'.show shown j = r.show shown j := by
    intro j n' hj hn'
    have hcore := hturn.keeps.core_eq j hj
    rw [hn'] at hcore
    obtain ⟨n, hn, hcore⟩ := Option.map_eq_some_iff.1 hcore.symm
    refine ⟨n, hn, (congrArg Node.status hcore :), ?_, (hturn.show_of_ne shown hj).1⟩
    exact latest?_append_of_not fun c hc _ heq => hj (heq.symm.trans (hturn.node_eq hc))
  rcases hturn.latest hid past shown with ⟨rfl, rfl, rfl⟩ | ⟨n, hn, herror, hnone⟩ |
    ⟨n, c, hn, hcompleted, hlatest, hunits⟩
  · rwa [List.append_nil]
  · constructor
    · intro j n' hn' hcompleted
      by_cases hj : j = id
      · subst hj
        obtain rfl := Option.some.inj (hn.symm.trans hn')
        cases herror.symm.trans hcompleted
      · obtain ⟨m, hm, hstatus, hsame, hshow⟩ := hother j n' hj hn'
        rw [hsame, hshow]
        exact h.of_completed j m hm (hstatus.trans hcompleted)
    · intro j n' hn' hnot
      by_cases hj : j = id
      · rw [hj, hnone]
      · obtain ⟨m, hm, hstatus, -, hshow⟩ := hother j n' hj hn'
        rw [hshow]
        exact h.of_not_completed j m hm fun heq => hnot (hstatus.symm.trans heq)
  · constructor
    · intro j n' hn' hcompleted'
      by_cases hj : j = id
      · exact ⟨c, hj ▸ hlatest, hj ▸ hunits⟩
      · obtain ⟨m, hm, hstatus, hsame, hshow⟩ := hother j n' hj hn'
        rw [hsame, hshow]
        exact h.of_completed j m hm (hstatus.trans hcompleted')
    · intro j n' hn' hnot
      by_cases hj : j = id
      · subst hj
        obtain rfl := Option.some.inj (hn.symm.trans hn')
        exact absurd hcompleted hnot
      · obtain ⟨m, hm, hstatus, -, hshow⟩ := hother j n' hj hn'
        rw [hshow]
        exact h.of_not_completed j m hm fun heq => hnot (hstatus.symm.trans heq)

/-! ## A walk -/

theorem ShowsLatest.visitAll {ids : List NodeId} (h : g.ShowsLatest past (r.show shown))
    (hids : ids.Nodup) (hdisjoint : ∀ j ∈ r.mentions, j ∉ ids)
    (hvisit : visitAll recompute inputs ids g r = (some r', g')) :
    g'.ShowsLatest (past ++ visitAllCalls recompute inputs ids g r) (r'.show shown) := by
  induction ids generalizing g r past with
  | nil =>
    cases hvisit
    rwa [visitAllCalls, List.append_nil]
  | cons id ids ih =>
    obtain ⟨r₁, g₁, hfirst, hrest⟩ := visitAll_cons hvisit
    obtain ⟨hid, hids⟩ := List.nodup_cons.1 hids
    have hturn := visit_turn g recompute inputs id r
    rw [hfirst] at hturn
    have hnext : ∀ j ∈ r₁.mentions, j ∉ ids := by
      intro j hj hmem
      by_cases heq : j = id
      · exact hid (heq ▸ hmem)
      · exact hdisjoint j ((hturn.show_of_ne shown heq).2 hj) (List.mem_cons_of_mem _ hmem)
    have hstep := h.turn hturn fun hmem => hdisjoint id hmem List.mem_cons_self
    rw [visitAllCalls, hfirst, ← List.append_assoc]
    exact ih hstep hids hnext hrest

/-- **Nodes show what they emitted last after a walk that has come to its end.** -/
theorem ShowsLatest.execute (h : g.ShowsLatest past shown) (hg : g.WellFormed)
    (hexecute : g.execute recompute inputs = (some r, g')) :
    g'.ShowsLatest (past ++ g.executeCalls recompute inputs) (r.show shown) := by
  have hstart : Report.empty.show shown = shown := funext fun _ => rfl
  refine ShowsLatest.visitAll (r := .empty) (by rwa [hstart]) hg.nodup_order ?_ hexecute
  exact fun j hj => absurd hj List.not_mem_nil

/-! ## Who has its turn -/

/-- A node that a walk is to run is called when it has its turn, or blocked. -/
theorem called_or_blamed_of_visitAll {ids : List NodeId} (hids : ids.Nodup) (hid : id ∈ ids)
    (hmem : id ∈ g.ids) (hselects : ∀ g n, selects g recompute id n = true)
    (hvisit : visitAll recompute inputs ids g r = (some r', g')) :
    (∃ c ∈ visitAllCalls recompute inputs ids g r, c.visit.node = id) ∨
      ∃ n d, g'.node? id = some n ∧ n.Blames d := by
  induction ids generalizing g r with
  | nil => cases hid
  | cons j ids ih =>
    obtain ⟨r₁, g₁, hfirst, hrest⟩ := visitAll_cons hvisit
    obtain ⟨hj, hids⟩ := List.nodup_cons.1 hids
    have hturn := visit_turn g recompute inputs j r
    rw [hfirst] at hturn
    rw [visitAllCalls, hfirst]
    generalize g.visitCalls recompute inputs j = calls at hturn ⊢
    by_cases heq : j = id
    · subst heq
      obtain ⟨n, hn⟩ := mem_ids_iff.1 hmem
      have hcalled : ∀ c ∈ calls, c.visit.node = j := fun c hc => hturn.node_eq hc
      -- The rest of the walk does not touch the node.
      have hkept := (visitAll_keeps recompute inputs hj g₁ r₁).1
      rw [hrest] at hkept
      cases hturn with
      | skipped hskipped => cases (hskipped n hn).symm.trans (hselects _ n)
      | @blocked m d hm =>
        have hblocked : (g.update j (Node.settle ∘ Node.blocked d)).node? j
            = some (m.blocked d).settle := by
          rw [node?_update, if_pos rfl, hm]
          rfl
        obtain ⟨n', hn', hcore⟩ := Option.map_eq_some_iff.1
          (hkept.trans (congrArg (Option.map Node.core) hblocked))
        exact Or.inr ⟨n', d, hn', (congrArg Node.status hcore :),
          (congrArg Node.lastError hcore :)⟩
      | @ran m _ _ _ _ _ _ hcalls =>
        obtain ⟨c, hc⟩ := List.exists_mem_of_ne_nil calls
          (hcalls ▸ attemptCalls_ne_nil (m.tries_ne_zero _))
        exact Or.inl ⟨c, List.mem_append_left _ hc, hcalled c hc⟩
    · have hid : id ∈ ids := (List.mem_cons.1 hid).resolve_left (Ne.symm heq)
      rcases ih hids hid (hturn.keeps.ids_eq ▸ hmem) hrest with ⟨c, hc, hnode⟩ | hblames
      · exact Or.inl ⟨c, List.mem_append_right _ hc, hnode⟩
      · exact Or.inr hblames

/-- **A node that a walk is to run is called, or blocked by another one**, if the walk comes to its
end. -/
theorem called_or_blamed_of_execute {ids : List NodeId} (hg : g.WellFormed) (hid : id ∈ ids)
    (hmem : id ∈ g.ids) (hexecute : g.execute (some ids) inputs = (some r, g')) :
    (∃ c ∈ g.executeCalls (some ids) inputs, c.visit.node = id) ∨
      ∃ n d, g'.node? id = some n ∧ n.Blames d :=
  called_or_blamed_of_visitAll hg.nodup_order (hg.mem_order_iff.2 hmem) hmem
    (fun g n => selects_of_mem hid g n) hexecute

end Graph

end ReactiveScript

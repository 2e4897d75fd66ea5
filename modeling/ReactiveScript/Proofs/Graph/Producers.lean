import ReactiveScript.Proofs.Graph.Selective

/-!
# Who emitted a unit

When a node completes, it is put on record as the producer of the units that it emitted, so that it
can be found when the input of such a unit changes.  This file shows that the record is right about
every unit on display, unless two nodes display units with the same id, and that a walk over what the
producers of some units affect leaves the graph settled if the inputs of no other units changed.

What an attempt emits that fails is not put on record.  If the input of such a unit changes, the node
is not run again: it is forgotten (`Graph.Forgets`), unless it is found in another way.

* `Graph.Credits` — every unit on display is on record as its node's.
* `Credits.execute` — the record after a walk.
* `Settled.rerun` — the graph after a walk over what the producers of some units affect.
* `Settled.rerun_isSome` — such a walk comes to its end if it is known what it has to come to.
-/

set_option autoImplicit false

namespace ReactiveScript

/-- No two nodes show units with the same id. -/
def Apart (shown : NodeId → List OutputUnit) : Prop :=
  ∀ i, ∀ u ∈ shown i, ∀ j, ∀ u' ∈ shown j, u'.id = u.id → j = i

/-! ## Putting nodes on record -/

/-- The producers after a node has emitted some units. -/
def creditOne (producers : Table UnitId NodeId) (id : NodeId) (units : List OutputUnit) :
    Table UnitId NodeId :=
  units.foldl (fun ps u => Table.put u.id id ps) producers

/-- The producers after several nodes have emitted some units. -/
def credit (producers : Table UnitId NodeId) (outputs : List (NodeId × List OutputUnit)) :
    Table UnitId NodeId :=
  outputs.foldl (fun ps (id, units) => creditOne ps id units) producers

theorem get?_creditOne (producers : Table UnitId NodeId) (id : NodeId) (units : List OutputUnit)
    (unit : UnitId) : Table.get? unit (creditOne producers id units)
      = if unit ∈ units.map OutputUnit.id then some id else Table.get? unit producers := by
  induction units generalizing producers with
  | nil => rfl
  | cons u units ih =>
    rw [creditOne, List.foldl_cons]
    refine (ih _).trans ?_
    rw [Table.get?_put]
    by_cases hu : u.id = unit
    · simp [hu]
    · simp [hu, Ne.symm hu]

/-- A unit is on record as a node's if the node was on record or emitted it, and no other did. -/
theorem get?_credit {producers : Table UnitId NodeId} {id : NodeId} {unit : UnitId}
    {outputs : List (NodeId × List OutputUnit)}
    (honly : ∀ e ∈ outputs, unit ∈ e.2.map OutputUnit.id → e.1 = id)
    (hid : Table.get? unit producers = some id ∨
      ∃ e ∈ outputs, e.1 = id ∧ unit ∈ e.2.map OutputUnit.id) :
    Table.get? unit (credit producers outputs) = some id := by
  induction outputs generalizing producers with
  | nil =>
    refine hid.resolve_right ?_
    rintro ⟨e, he, -⟩
    cases he
  | cons e outputs ih =>
    obtain ⟨hfirst, hrest⟩ := List.forall_mem_cons.1 honly
    refine ih hrest ?_
    rw [get?_creditOne]
    split
    · rename_i hemitted
      exact Or.inl (congrArg some (hfirst hemitted))
    · rename_i hemitted
      refine hid.imp_right ?_
      rintro ⟨e', he', hown⟩
      rcases List.mem_cons.1 he' with rfl | he'
      · exact absurd hown.2 hemitted
      · exact ⟨e', he', hown⟩

namespace Graph

variable {g g' : Graph} {recompute : Option (List NodeId)} {inputs inputs' : InputTable}
  {id : NodeId} {n : Node} {r r' : Report} {shown : NodeId → List OutputUnit}

/-- A turn puts its node on record for what it lets the report show. -/
theorem Turn.producers_eq {calls : List Call} {producers : Table UnitId NodeId}
    (h : Turn g recompute inputs id r calls (some r') g')
    (hr : g.producers = credit producers r.outputs) :
    g'.producers = credit producers r'.outputs := by
  cases h with
  | skipped _ => exact hr
  | blocked _ _ _ => exact hr
  | ran _ _ _ _ _ hattempted =>
    cases hattempted with
    | completed _ _ _ _ hquiet =>
      rw [producers_complete, Report.complete, Report.outputs_of_quiet hquiet, credit,
        List.foldl_append]
      exact congrArg (fun ps => creditOne ps id _) hr
    | failed _ _ _ _ _ hquiet =>
      show g.producers = _
      rw [Report.fail, Report.outputs_of_quiet hquiet]
      exact hr

theorem producers_visitAll {ids : List NodeId} {producers : Table UnitId NodeId}
    (h : visitAll recompute inputs ids g r = (some r', g'))
    (hr : g.producers = credit producers r.outputs) :
    g'.producers = credit producers r'.outputs := by
  induction ids generalizing g r with
  | nil =>
    cases h
    exact hr
  | cons id ids ih =>
    obtain ⟨r₁, g₁, hvisit, hrest⟩ := visitAll_cons h
    have hturn := visit_turn g recompute inputs id r
    rw [hvisit] at hturn
    exact ih hrest (hturn.producers_eq hr)

/-- A walk puts nodes on record for what it reports of them. -/
theorem producers_execute (h : g.execute recompute inputs = (some r, g')) :
    g'.producers = credit g.producers r.outputs :=
  producers_visitAll h rfl

/-- Every unit that is shown of a node is on record as the node's. -/
def Credits (g : Graph) (shown : NodeId → List OutputUnit) : Prop :=
  ∀ id, ∀ u ∈ shown id, g.producer? u.id = some id

/-- **The record is right after a walk** if no two nodes show units with the same id then. -/
theorem Credits.execute (h : g.Credits shown) (hg : g.WellFormed)
    (hexecute : g.execute recompute inputs = (some r, g')) (hapart : Apart (r.show shown)) :
    g'.Credits (r.show shown) := by
  obtain ⟨-, houtputs, hdisjoint⟩ :=
    List.nodup_append.1 (nodup_mentions_of_execute hg hexecute).1
  have hshow : ∀ e ∈ r.outputs, r.show shown e.1 = e.2 := by
    intro e he
    have hkey : e.1 ∈ Table.keys r.outputs := List.mem_map_of_mem he
    rw [Report.show, if_neg fun hid => hdisjoint _ hid _ hkey rfl, Table.get?_of_mem houtputs he]
    rfl
  intro id u hu
  rw [producer?, producers_execute hexecute]
  refine get?_credit (fun e he hunit => ?_) ?_
  · obtain ⟨u', hu', heq⟩ := List.mem_map.1 hunit
    exact hapart id u hu e.1 u' (by rwa [hshow e he]) heq
  · have hid := hu
    rw [Report.show] at hid
    split at hid
    · cases hid
    · cases houtput : Table.get? id r.outputs with
      | none =>
        rw [houtput] at hid
        exact Or.inl (h id u hid)
      | some units =>
        rw [houtput] at hid
        exact Or.inr ⟨(id, units), Table.mem_of_get? houtput, rfl, List.mem_map_of_mem hid⟩

/-! ## A walk over what some units affect -/

/-- The units that a node emits under some inputs, whether or not it fails in the end. -/
def emits (g : Graph) (inputs : InputTable) (id : NodeId) (n : Node) : List UnitId :=
  (g.outcomeOf inputs id n).footprint.log.emitted.toList.map OutputUnit.id

/-- The nodes that a change of the inputs of some units affects, as far as is on record. -/
def affectedBy (g : Graph) (changed : List UnitId) : List NodeId :=
  g.affected (changed.filterMap g.producer?)

/-- A node that failed by itself emitted one of some units, but is not known to be affected. -/
def Forgets (g : Graph) (inputs : InputTable) (changed : List UnitId) : Prop :=
  ∃ id n, g.node? id = some n ∧ n.status = .error ∧ (∀ d ∈ n.dependencies, g.hasFailed d = false) ∧
    id ∉ g.affectedBy changed ∧ ∃ unit ∈ g.emits inputs id n, unit ∈ changed

/-- A settled node stays settled if the inputs of the units that it emits stay. -/
theorem SettledAt.of_heeds (h : g.SettledAt inputs shown id n) (hheeds : n.body.HeedsOwnUnits)
    (hinputs : (∀ d ∈ n.dependencies, g.hasFailed d = false) → ∀ unit ∈ g.emits inputs id n,
      Table.get? unit inputs' = Table.get? unit inputs) : g.SettledAt inputs' shown id n := by
  have hverdict : g.verdict inputs' id n = g.verdict inputs id n := by
    cases hfind : n.dependencies.find? g.hasFailed with
    | some d => rw [verdict_of_failed inputs id hfind, verdict_of_failed inputs' id hfind]
    | none =>
      have hall := find?_hasFailed_eq_none.1 hfind
      have hsame : g.outcomeOf inputs' id n = g.outcomeOf inputs id n :=
        hheeds _ inputs' fun u hu => hinputs hall u.id (List.mem_map_of_mem hu)
      rw [verdict_of_not_failed inputs id hall, verdict_of_not_failed inputs' id hall, hsame]
  exact ⟨by rw [hverdict]; exact h.shows, fun hall hnot => h.pausesFit hall (hverdict ▸ hnot)⟩

/-- A settled node that completed shows what it emits. -/
theorem SettledAt.emits_eq (h : g.SettledAt inputs shown id n)
    (hall : ∀ d ∈ n.dependencies, g.hasFailed d = false) (hcompleted : n.status = .completed) :
    g.emits inputs id n = (shown id).map OutputUnit.id := by
  have hshows := h.shows
  rw [verdict_of_not_failed inputs id hall] at hshows
  cases hresult : (g.outcomeOf inputs id n).result none with
  | ok v =>
    rw [hresult] at hshows
    rw [emits, hshows.2.2.2]
  | error e =>
    rw [hresult] at hshows
    cases hcompleted.symm.trans hshows.1

/-- A walk over what the producers of some units affect starts with the other nodes settled under
inputs that differ about these units only, unless it forgets a node. -/
theorem Settled.settling_affectedBy {changed : List UnitId} (h : g.Settled inputs shown)
    (hg : g.WellFormed) (hlocal : g.Local) (htimeout : g.nodeTimeout = none)
    (hheeds : ∀ id n, g.node? id = some n → n.body.HeedsOwnUnits) (hcredits : g.Credits shown)
    (hinputs : ∀ unit, unit ∉ changed → Table.get? unit inputs' = Table.get? unit inputs)
    (hforgets : ¬ g.Forgets inputs changed) :
    g.Settling inputs' shown (· ∈ g.affectedBy changed) [] g.order .empty := by
  refine settling_affected hg hlocal htimeout fun id n hn hid => ?_
  refine (h id n hn).of_heeds (hheeds id n hn) fun hall unit hunit => hinputs unit fun hmem => ?_
  rcases (h id n hn).status_eq with hcompleted | herror
  · -- The node is on record for the unit.
    rw [(h id n hn).emits_eq hall hcompleted] at hunit
    obtain ⟨u, hu, rfl⟩ := List.mem_map.1 hunit
    exact hid (hg.subset_affected (List.mem_filterMap.2 ⟨u.id, hmem, hcredits id u hu⟩)
      (mem_ids_iff.2 ⟨n, hn⟩))
  · exact hforgets ⟨id, n, hn, herror, hall, hid, unit, hunit, hmem⟩

/-- **A walk over what the producers of some units affect settles a graph** under inputs that differ
about these units only, unless it forgets a node. -/
theorem Settled.rerun {changed : List UnitId} (h : g.Settled inputs shown) (hg : g.WellFormed)
    (hlocal : g.Local) (htimeout : g.nodeTimeout = none)
    (hheeds : ∀ id n, g.node? id = some n → n.body.HeedsOwnUnits) (hcredits : g.Credits shown)
    (hinputs : ∀ unit, unit ∉ changed → Table.get? unit inputs' = Table.get? unit inputs)
    (hforgets : ¬ g.Forgets inputs changed)
    (hexecute : g.execute (some (g.affectedBy changed)) inputs' = (some r, g')) :
    g'.WellFormed ∧ g'.Local ∧ g'.nodeTimeout = none ∧ g'.Settled inputs' (r.show shown) :=
  (h.settling_affectedBy hg hlocal htimeout hheeds hcredits hinputs hforgets).execute
    (fun _ g n hid => selects_of_mem hid g n) hexecute

/-- Such a walk comes to its end if a graph that is alike has settled under these inputs. -/
theorem Settled.rerun_isSome {changed : List UnitId} {shown' : NodeId → List OutputUnit}
    (h : g.Settled inputs shown) (hg : g.WellFormed) (hlocal : g.Local)
    (htimeout : g.nodeTimeout = none)
    (hheeds : ∀ id n, g.node? id = some n → n.body.HeedsOwnUnits) (hcredits : g.Credits shown)
    (hinputs : ∀ unit, unit ∉ changed → Table.get? unit inputs' = Table.get? unit inputs)
    (hforgets : ¬ g.Forgets inputs changed) (halike : g.Alike g') (hg' : g'.WellFormed)
    (hsettled' : g'.Settled inputs' shown') :
    (g.execute (some (g.affectedBy changed)) inputs').1.isSome = true :=
  (h.settling_affectedBy hg hlocal htimeout hheeds hcredits hinputs hforgets).visitAll_isSome
    (fun _ g n hid => selects_of_mem hid g n) halike hg' hsettled'

end Graph

end ReactiveScript

import ReactiveScript.Proofs.Graph.Latest
import ReactiveScript.Proofs.Session.Emissions

/-!
# What is on view is valid

What a session has on view, the status of its nodes, and its record of who emitted a unit are kept up
to date at different places.  They agree after every walk that comes to its end: a node shows
something only if it has completed, and then what it emitted last, and it is on record for that.  So
a change of the input of a unit on view finds the node that emitted it.

A walk that breaks off leaves no report.  Nodes that completed in it are on record for what they
emitted, but go on to show what they emitted before, until the script is loaded again.

* `Session.NodesCurrent` — nodes show what they emitted last, and are on record for it.
* `Session.Valid` — what is on view is valid.
* `Session.view_is_valid_and_routable` — the theorem.
-/

set_option autoImplicit false

namespace ReactiveScript

/-- Units with the same id are only emitted in calls of the same node, as far as these complete. -/
def EmitApart (calls : List Call) : Prop :=
  ∀ c ∈ calls, ∀ c' ∈ calls, c.completes = true → c'.completes = true →
    ∀ u ∈ c.units, ∀ u' ∈ c'.units, u'.id = u.id → c'.visit.node = c.visit.node

theorem EmitApart.of_append {calls new : List Call} (h : EmitApart (calls ++ new)) :
    EmitApart calls :=
  fun c hc c' hc' => h c (List.mem_append_left _ hc) c' (List.mem_append_left _ hc')

/-- A node that shows something has a segment. -/
theorem View.mem_keys_of_shown {v : View} {id : NodeId} (h : v.shown id ≠ []) :
    id ∈ Table.keys v.segments := by
  cases hget : Table.get? id v.segments with
  | none => simp [shown, segment?, hget] at h
  | some units => exact Table.mem_keys_of_get? hget

namespace Session

variable {s t u : Session} {calls new : List Call} {p : Program}

/-! ## Nodes show what they emitted last -/

/-- Nodes show what they emitted last, and are on record for it unless two of them emitted units
with the same id. -/
structure NodesCurrent (calls : List Call) (s : Session) : Prop where
  /-- Nodes show what they emitted last. -/
  showsLatest : s.graph.ShowsLatest calls s.view.shown
  /-- Nodes are on record for what they show. -/
  credits : EmitApart calls → s.graph.Credits s.view.shown

theorem NodesCurrent.sameContent (h : s.NodesCurrent calls) (hsame : s.SameContent t) :
    t.NodesCurrent calls := by
  constructor
  · rw [hsame.graph_eq, hsame.view_eq]
    exact h.showsLatest
  · rw [hsame.graph_eq, hsame.view_eq]
    exact h.credits

/-- Where nothing is on view and no node has completed, nothing has to be shown. -/
theorem current_of_empty (hview : s.view = .empty)
    (hpending : ∀ id n, s.graph.node? id = some n → n.status ≠ .completed) :
    s.NodesCurrent calls := by
  have hnone : ∀ id, s.view.shown id = [] := by
    intro id
    rw [hview]
    rfl
  refine ⟨⟨?_, fun id _ _ _ => hnone id⟩, fun _ id u hu => ?_⟩
  · intro id n hn hcompleted
    exact absurd hcompleted (hpending id n hn)
  · rw [hnone id] at hu
    cases hu

/-- No node has completed once the script has been loaded, or its nodes have been set up anew. -/
theorem Reloads.current (h : s.Reloads t) (calls : List Call) : t.NodesCurrent calls := by
  refine current_of_empty h.view_eq fun id n hn hcompleted => ?_
  rcases h.content with ⟨source, p, -, hsplit, -⟩ | ⟨hgraph, -⟩
  · obtain ⟨_, -, -, -, hinstalled, -⟩ := exists_installed_of_split? hsplit
    obtain ⟨d, -, -, hcore⟩ := hinstalled.exists_declaration hn
    have hpending : n.status = .pending := (congrArg Node.status hcore :)
    cases hpending.symm.trans hcompleted
  · rw [hgraph] at hn
    cases hn

/-- Nodes that emitted units with different ids show units with different ids. -/
theorem NodesShow.apart (h : s.NodesShow calls) (hemit : EmitApart calls) : Apart s.view.shown := by
  intro i u hu j u' hu' heq
  rcases h.shown i with hnone | ⟨c, hc, hcompletes, rfl, hshown⟩
  · rw [hnone] at hu
    cases hu
  rcases h.shown j with hnone | ⟨c', hc', hcompletes', rfl, hshown'⟩
  · rw [hnone] at hu'
    cases hu'
  rw [hshown] at hu
  rw [hshown'] at hu'
  exact hemit c hc c' hc' hcompletes hcompletes' u hu u' hu' heq

/-- **Nodes show what they emitted last after a walk that has come to its end**, and are on record
for it. -/
theorem NodesCurrent.walk (h : s.NodesCurrent calls) (hnodes : s.NodesShow calls)
    {recompute : Option (List NodeId)} {inputs : InputTable} {r : Report} {g' : Graph}
    (hexecute : s.graph.execute recompute inputs = (some r, g')) :
    (({ s with graph := g' } : Session).apply r).NodesCurrent
      (calls ++ s.graph.executeCalls recompute inputs) := by
  have hafter := hnodes.walk hexecute
  obtain ⟨hmentions, -⟩ := Graph.nodup_mentions_of_execute hnodes.wellFormed hexecute
  obtain ⟨-, hshown, -⟩ := shown_apply (s := { s with graph := g' }) hnodes.distinct hmentions
  have hgraph := graph_apply r { s with graph := g' }
  constructor
  · rw [hgraph, hshown]
    exact h.showsLatest.execute hnodes.wellFormed hexecute
  · -- Of two nodes that emit a unit with the same id, the later one is put on record for it.
    intro hemit
    have hapart := hafter.apart hemit
    rw [hshown] at hapart
    rw [hgraph, hshown]
    exact (h.credits hemit.of_append).execute hnodes.wellFormed hexecute hapart

/-- Nodes show what they emitted last after a run. -/
theorem NodesCurrent.runs (h : t.mode = .incremental → t.NodesCurrent calls)
    (htraced : t.Traced calls) (hruns : t.Runs new u) (hmode : u.mode = .incremental) :
    u.NodesCurrent (calls ++ new) := by
  cases hruns with
  | nothing hsame =>
    rw [List.append_nil]
    exact (h (hsame.mode_eq.symm.trans hmode)).sameContent hsame
  | walk hbefore hprogram hexecute hsame =>
    exact ((h hbefore).walk (htraced.nodesShow hprogram) hexecute).sameContent hsame
  | whole hwhole _ _ _ hsame =>
    have hkept : u.mode = .fullRerun := hsame.mode_eq.trans hwhole
    cases hkept.symm.trans hmode

/-- Nodes show what they emitted last after some work that has not broken off. -/
theorem NodesCurrent.effect {α : Type} {r : Reply α × Session} {before : Session → Prop}
    (heffect : Effect before new r) (hcrashed : r.1 ≠ .crashed)
    (htraced : ∀ t, before t → t.Traced calls)
    (h : ∀ t, before t → t.mode = .incremental → t.NodesCurrent calls)
    (hmode : r.2.mode = .incremental) : r.2.NodesCurrent (calls ++ new) := by
  obtain ⟨t, hbefore, hruns | hbreaks⟩ := heffect
  · exact NodesCurrent.runs (h t hbefore) (htraced t hbefore) ‹_› hmode
  · exact absurd ‹_› hcrashed

/-- No walk has broken off if none had before and the command is carried out or refused, or if the
script has been loaded. -/
theorem of_breaks_eq_false {broken : Bool} {c : Command} {reply : Reply Answer}
    (h : breaks broken c reply = false) :
    reply ≠ .crashed ∧ (broken = false ∨ c.loads = true ∧ reply = .done .done) := by
  cases reply with
  | crashed => cases h
  | refused e => exact ⟨nofun, Or.inl h⟩
  | done a =>
    refine ⟨nofun, ?_⟩
    cases a with
    | rerun | graph => exact Or.inl h
    | done =>
      cases broken with
      | false => exact Or.inl rfl
      | true => exact Or.inr ⟨by simpa [breaks] using h, rfl⟩

/-- **Nodes always show what they emitted last**, if no walk has broken off since the script was
loaded. -/
theorem Chronicle.current {id : SessionId} {settings : Settings} {broken : Bool}
    (h : Chronicle id settings calls broken s) :
    broken = false → s.mode = .incremental → s.NodesCurrent calls := by
  refine (h.induct (P := fun calls broken s =>
    broken = false → s.mode = .incremental → s.NodesCurrent calls) ?_ ?_ ?_).2
  · intro _ _
    refine current_of_empty rfl fun _ n hn => ?_
    cases hn
  · intro calls broken s t hcurrent hsame hbroken hmode
    exact (hcurrent hbroken (hsame.mode_eq.symm.trans hmode)).sameContent hsame
  · intro calls broken s now c h hs hcurrent hbroken hmode
    have htraced := h.traced
    obtain ⟨hcrashed, hunbroken | ⟨hloads, hdone⟩⟩ := of_breaks_eq_false hbroken
    · -- The nodes showed what they emitted last before, or have just been set up anew.
      refine NodesCurrent.effect (hs.effect now c) hcrashed (fun t ht => htraced.prepares ht) ?_
        hmode
      rintro t (hsame | hreloads) hbefore
      · exact (hcurrent hunbroken (hsame.mode_eq.symm.trans hbefore)).sameContent hsame
      · exact hreloads.current calls
    · -- Whatever was shown before, the script has been loaded again.
      exact NodesCurrent.effect (hs.effect_of_loads hloads hdone) hcrashed
        (fun t ht => htraced.reloads ht) (fun t ht _ => ht.current calls) hmode

/-! ## Units and their sites -/

/-- What a call emitted has a site under the anchor of its node. -/
theorem CallsNode.exists_emission {c : Call} {d : Declaration} (h : s.CallsNode c p d)
    (hc : c ∈ calls) (hcompletes : c.completes = true) {u : OutputUnit} (hu : u ∈ c.units) :
    ∃ e, s.NodeEmits calls e ∧ e.unit = u ∧ e.site.anchor = d.span := by
  obtain ⟨hattributed, hunits⟩ := d.attributed_emissions p s.settings.recursionLimit c.visit
  rw [Call.units, h.outcome_eq, ← hunits] at hu
  obtain ⟨e, he, rfl⟩ := List.mem_map.1 hu
  exact ⟨e, h.nodeEmits hc hcompletes he, rfl, List.mem_singleton.1 (hattributed.mem_anchors e he)⟩

/-- If units with the same id come from the same site, they come from calls of the same node. -/
theorem Traced.emitApart (h : s.Traced calls)
    (hsites : ∀ e e', s.NodeEmits calls e → s.NodeEmits calls e' →
      e.unit.id = e'.unit.id → e.site = e'.site) : EmitApart calls := by
  intro c hc c' hc' hcompletes hcompletes' u hu u' hu' heq
  obtain ⟨p, d, hcalls⟩ := h.callsNode c hc
  obtain ⟨p', d', hcalls'⟩ := h.callsNode c' hc'
  obtain rfl := hcalls.isSplit.unique hcalls'.isSplit
  obtain ⟨e, he, rfl, hanchor⟩ := hcalls.exists_emission hc hcompletes hu
  obtain ⟨e', he', rfl, hanchor'⟩ := hcalls'.exists_emission hc' hcompletes' hu'
  have hsite := hsites e' e he' he heq
  have hspan : d'.span = d.span := by rw [← hanchor', hsite, hanchor]
  obtain ⟨script, hsplits, hspans⟩ := hcalls.isSplit.exists_script
  obtain rfl := hsplits.eq_of_span_eq hspans hcalls'.mem_nodes hcalls.mem_nodes hspan
  exact hcalls'.node_eq.trans hcalls.node_eq.symm

/-! ## What is on view is valid -/

/-- What is on view is valid, and the node that emitted a unit can be found. -/
structure Valid (calls : List Call) (s : Session) : Prop where
  /-- Only nodes that completed show something. -/
  completed : ∀ id, s.view.shown id ≠ [] →
    ∃ n, s.graph.node? id = some n ∧ n.status = .completed
  /-- A node that completed shows what it emitted in the last of its calls that completed. -/
  latest : ∀ id n, s.graph.node? id = some n → n.status = .completed →
    ∃ c, Graph.latest? id calls = some c ∧ s.view.shown id = c.units
  /-- Only nodes in the order of the graph have segments. -/
  mem_order : ∀ id ∈ Table.keys s.view.segments, id ∈ s.graph.order
  /-- Nodes are on record for what they show. -/
  credits : s.graph.Credits s.view.shown

/-- A session that runs nodes has only those of the graph on view. -/
theorem Traced.mem_order (h : s.Traced calls) (hmode : s.mode = .incremental) {id : NodeId}
    (hid : id ∈ Table.keys s.view.segments) : id ∈ s.graph.order := by
  rcases h.shows with hnodes | hscript
  · exact hnodes.wellFormed.mem_order_iff.2 (hnodes.mem_ids id hid)
  · rcases hscript.view_eq with hempty | ⟨hwhole, -⟩
    · rw [hempty] at hid
      cases hid
    · cases hwhole.symm.trans hmode

theorem Traced.wellFormed (h : s.Traced calls) : s.graph.WellFormed :=
  h.shows.elim NodesShow.wellFormed ScriptShows.wellFormed

theorem NodesCurrent.valid (h : s.NodesCurrent calls) (htraced : s.Traced calls)
    (hmode : s.mode = .incremental) (hemit : EmitApart calls) : s.Valid calls where
  completed id hid := by
    have hmem := htraced.mem_order hmode (View.mem_keys_of_shown hid)
    obtain ⟨n, hn⟩ := Graph.mem_ids_iff.1 (htraced.wellFormed.mem_order_iff.1 hmem)
    refine ⟨n, hn, ?_⟩
    by_contra hnot
    exact hid (h.showsLatest.of_not_completed id n hn hnot)
  latest := h.showsLatest.of_completed
  mem_order _ := htraced.mem_order hmode
  credits := h.credits hemit

/-! ## Changes find the node that emitted a unit -/

variable {now : Instant} {origin : Option ObserverId} {changes : Table UnitId Value}
  {node : NodeId}

/-- A change of the input of a unit on view affects the node that emitted it. -/
theorem Valid.mem_affectedBy (h : s.Valid calls) (hwell : s.graph.WellFormed) {u : OutputUnit}
    (hu : u ∈ s.view.shown node) {changed : List UnitId} (hchanged : u.id ∈ changed) :
    node ∈ s.graph.affectedBy changed := by
  obtain ⟨n, hn, -⟩ := h.completed node (List.ne_nil_of_mem hu)
  have hproducer : node ∈ changed.filterMap s.graph.producer? :=
    List.mem_filterMap.2 ⟨u.id, hchanged, h.credits node u hu⟩
  exact hwell.subset_affected hproducer (Graph.mem_ids_iff.2 ⟨n, hn⟩)

/-- **A rerun calls the nodes that the changes affect**, or they are blocked, unless the walk breaks
off. -/
theorem rerun_of_affected (hwell : s.graph.WellFormed) (hmode : s.mode = .incremental)
    (hrunning : s.state = .running) (hdebounced : s.isDebounced now = false)
    (haccepted : s.accepted changes ≠ [])
    (hnode : node ∈ s.graph.affectedBy (Table.keys (s.accepted changes)))
    (hmem : node ∈ s.graph.ids) :
    (s.rerun now origin changes).1 = .crashed ∨
    (s.rerun now origin changes).1
        = .done (.incremental (s.graph.affectedBy (Table.keys (s.accepted changes)))) ∧
      ((∃ c ∈ s.callsOf now (.rerun origin changes), c.visit.node = node) ∨
        ∃ n d, (s.rerun now origin changes).2.graph.node? node = some n ∧ n.Blames d) := by
  obtain ⟨memo, inputs, audience, htake, -⟩ := takeUp_eq origin changes s
  have hsome : s.graph.affectedBy (Table.keys (s.accepted changes)) ≠ [] := List.ne_nil_of_mem hnode
  have hcalls : s.callsOf now (.rerun origin changes)
      = s.graph.executeCalls (some (s.graph.affectedBy (Table.keys (s.accepted changes))))
          inputs := by
    simp [callsOf, hrunning, hdebounced, haccepted, htake, againCalls, hmode, hsome]
  rw [hcalls, rerun_eq hrunning hdebounced haccepted, htake]
  set t : Session := { s with inputMemo := memo, inputs, audience } with ht
  dsimp only
  rw [runAgain_of_affected (s := t) hmode hsome]
  rcases runNodes_cases (some (t.graph.affectedBy (Table.keys (s.accepted changes)))) t with
    hcrashed | ⟨r, g', hexecute, hrun⟩
  · rw [hcrashed]
    exact Or.inl rfl
  · rw [hrun]
    refine Or.inr ⟨rfl, ?_⟩
    obtain ⟨_, _, hfinish⟩ := finish_eq now false (({ t with graph := g' } : Session).apply r)
    dsimp only [Reply.map]
    rw [hfinish]
    dsimp only
    rw [graph_apply]
    exact Graph.called_or_blamed_of_execute hwell hnode hmem hexecute

/-- **What is on view is valid, and changes find the node that emitted a unit.**  Suppose that no
walk over the graph has broken off since the script was loaded, and that units with the same id have
come from the same site.

* Whatever a session that runs nodes was asked for before, what it has on view is valid.
* If it takes up a change of the input of a unit on view, it runs the node that emitted the unit:
  the node is called or is blocked by another one, unless this walk breaks off. -/
theorem view_is_valid_and_routable (id : SessionId) (settings : Settings) (calls : List Call)
    (s : Session) (h : Chronicle id settings calls false s) (hmode : s.mode = .incremental)
    (hsites : ∀ e e', s.NodeEmits calls e → s.NodeEmits calls e' →
      e.unit.id = e'.unit.id → e.site = e'.site) :
    s.Valid calls ∧
    ∀ (node : NodeId) (u : OutputUnit) (now : Instant) (origin : Option ObserverId)
      (changes : Table UnitId Value), u ∈ s.view.shown node → s.state = .running →
      s.isDebounced now = false → u.id ∈ Table.keys (s.accepted changes) →
        (s.rerun now origin changes).1 = .crashed ∨
        ∃ affected, (s.rerun now origin changes).1 = .done (.incremental affected) ∧
          node ∈ affected ∧
          ((∃ c ∈ s.callsOf now (.rerun origin changes), c.visit.node = node) ∨
            ∃ n d, (s.rerun now origin changes).2.graph.node? node = some n ∧ n.Blames d) := by
  have htraced := h.traced
  have hvalid := (h.current rfl hmode).valid htraced hmode (htraced.emitApart hsites)
  refine ⟨hvalid, ?_⟩
  intro node u now origin changes hu hrunning hdebounced haccepted
  have hwell := htraced.wellFormed
  have hnode := hvalid.mem_affectedBy hwell hu haccepted
  obtain ⟨n, hn, -⟩ := hvalid.completed node (List.ne_nil_of_mem hu)
  have hsome : s.accepted changes ≠ [] := by
    intro hnone
    rw [hnone] at haccepted
    cases haccepted
  refine (rerun_of_affected hwell hmode hrunning hdebounced hsome hnode
    (Graph.mem_ids_iff.2 ⟨n, hn⟩)).imp_right ?_
  rintro ⟨hdone, hcalled⟩
  exact ⟨_, hdone, hnode, hcalled⟩

/-! ## A box on view -/

/-- The box is on view once the script has been loaded, and shares its id with nothing else. -/
theorem exists_view_of_tick : ∃ g, untouched.split? tickSource = some (tickProgram, g) ∧
    (untouched.beforeTick g).1.settle.toOption.isSome ∧ (untouched.boxed g).Ticks ∧
    ((tickProgram.emissions 64 (g.executeCalls none [])).map fun e => e.unit.id).Nodup ∧
    ∃ u ∈ (untouched.boxed g).view.shown boxNode, u.id = boxUnit :=
  exists_split?_of_install untouched rfl (by decide +kernel)

/-- The session that has been started is that of the script. -/
theorem content_beforeTick {g : Graph} (hdone : (untouched.beforeTick g).1.settle.toOption.isSome) :
    let s := untouched.boxed g
    s.settings = .standard ∧ s.source = some tickSource ∧ s.mode = .incremental := by
  obtain ⟨_, _, hfinish⟩ := finish_eq ⟨0⟩ true (untouched.beforeTick g).2
  rw [boxed, hfinish]
  rcases runNodes_cases none (untouched.split tickSource tickProgram g) with
    hcrashed | ⟨r, g', -, hrun⟩
  · rw [beforeTick, hcrashed] at hdone
    cases hdone
  · obtain ⟨_, happly⟩ := apply_eq r { untouched.split tickSource tickProgram g with graph := g' }
    rw [beforeTick, hrun, happly]
    exact ⟨rfl, rfl, rfl⟩

/-- The theorem applies to a box that is ticked. -/
theorem view_is_valid_and_routable_of_tick : ∃ (calls : List Call) (s : Session),
    Chronicle ⟨"main"⟩ .standard calls false s ∧ s.mode = .incremental ∧ s.Valid calls ∧
    (∃ u ∈ s.view.shown boxNode, u.id = boxUnit) ∧
    (s.rerun ⟨10 ^ 9⟩ none tick).1 = .done (.incremental [boxNode, textNode]) ∧
    ((∃ c ∈ s.callsOf ⟨10 ^ 9⟩ (.rerun none tick), c.visit.node = boxNode) ∨
      ∃ n d, (s.rerun ⟨10 ^ 9⟩ none tick).2.graph.node? boxNode = some n ∧ n.Blames d) := by
  obtain ⟨g, hsplit, hdone, hticks, hnodup, u, hu, hid⟩ := exists_view_of_tick
  obtain ⟨hsettings, hsource, hmode⟩ := content_beforeTick hdone
  have hrerun := hticks.rerun_eq
  have hchronicle := chronicle_start_tick hsplit hdone
  set s := untouched.boxed g with hs
  have hsites : ∀ e e', s.NodeEmits (g.executeCalls none []) e →
      s.NodeEmits (g.executeCalls none []) e' → e.unit.id = e'.unit.id → e.site = e'.site := by
    rintro e e' ⟨p, hp, he⟩ ⟨p', hp', he'⟩ heq
    have hprogram : s.IsSplit tickProgram :=
      ⟨tickSource, g, hsource, (split?_congr hsettings tickSource).trans hsplit⟩
    obtain rfl := hp.unique hprogram
    obtain rfl := hp'.unique hprogram
    rw [hsettings] at he he'
    rw [List.inj_on_of_nodup_map hnodup he he' heq]
  obtain ⟨hvalid, hroutes⟩ :=
    view_is_valid_and_routable ⟨"main"⟩ .standard _ s hchronicle hmode hsites
  obtain ⟨-, -, hrunning, hdebounced, htaken, -⟩ := hticks
  refine ⟨_, s, hchronicle, hmode, hvalid, ⟨u, hu, hid⟩, congrArg Prod.fst hrerun, ?_⟩
  rcases hroutes boxNode u ⟨10 ^ 9⟩ none tick hu hrunning hdebounced
    (by rw [htaken, hid]; exact List.mem_singleton_self _) with hcrashed | ⟨_, -, -, hcalled⟩
  · cases (congrArg Prod.fst hrerun).symm.trans hcrashed
  · exact hcalled

end Session

end ReactiveScript

import ReactiveScript.Proofs.Graph.Latest
import ReactiveScript.Proofs.Program.Emissions
import ReactiveScript.Proofs.Session.Chronicle
import ReactiveScript.Proofs.Site

/-!
# Where the units on view come from

Every unit on view was emitted by a call of its node that completed, or by the interpretation of the
whole script.  The nodes may have been called at different times and under different inputs, but each
has its own statement as the anchor.  So the units on view come from different sites, whatever
happened before.

* `Session.Traced` — what is on view goes back to calls, or to an interpretation.
* `Session.Chronicle.traced` — it always does.
* `Session.unit_sites_are_unique` — the theorem.
-/

set_option autoImplicit false

namespace ReactiveScript

namespace Session

variable {s t : Session} {calls new : List Call} {p p' : Program}

/-! ## Emissions of a session -/

/-- The script of a session is split into the nodes of a program. -/
def IsSplit (s : Session) (p : Program) : Prop :=
  ∃ source g₀, s.source = some source ∧ s.split? source = some (p, g₀)

theorem IsSplit.unique (h : s.IsSplit p) (h' : s.IsSplit p') : p = p' := by
  obtain ⟨source, g₀, hsource, hsplit⟩ := h
  obtain ⟨source', g₀', hsource', hsplit'⟩ := h'
  obtain rfl : source = source' := Option.some.inj (hsource.symm.trans hsource')
  exact congrArg Prod.fst (Option.some.inj (hsplit.symm.trans hsplit'))

/-- The nodes are those of a script. -/
theorem IsSplit.exists_script (h : s.IsSplit p) :
    ∃ script : Script, script.SplitsInto p ∧ (script.body.map Stmt.span).Nodup := by
  obtain ⟨source, g₀, -, hsplit⟩ := h
  obtain ⟨script, hscript, hsplits, -⟩ := exists_installed_of_split? hsplit
  exact ⟨script, hsplits, Script.nodup_spans_of_ofSource hscript⟩

/-- One of the nodes of the script has been called. -/
structure CallsNode (s : Session) (c : Call) (p : Program) (d : Declaration) : Prop where
  /-- The script is split into the nodes of the program. -/
  isSplit : s.IsSplit p
  /-- The declaration is one of them. -/
  mem_nodes : d ∈ p.nodes
  /-- It was its node that was called. -/
  node_eq : c.visit.node = d.id
  /-- It came to what the declaration comes to. -/
  outcome_eq : c.outcome = d.body p s.settings.recursionLimit c.visit

/-- Something was emitted by a node in a call that completed. -/
def NodeEmits (s : Session) (calls : List Call) (e : Emission) : Prop :=
  ∃ p, s.IsSplit p ∧ e ∈ p.emissions s.settings.recursionLimit calls

/-- Something was emitted by an interpretation of the whole script. -/
def ScriptEmits (s : Session) (e : Emission) : Prop :=
  ∃ source script inputs units, s.source = some source ∧ s.mode = .fullRerun ∧
    Script.ofSource source.text = .ok script ∧
    script.interpret source.file inputs s.settings.recursionLimit = .ok units ∧
    e ∈ script.emissions source.file inputs s.settings.recursionLimit

/-! ## What is on view goes back to calls -/

/-- The script is split into nodes, and every node shows what some call of it has emitted, if it
shows anything. -/
structure NodesShow (calls : List Call) (s : Session) : Prop where
  /-- The script is split into nodes, and they have been there since. -/
  split : ∃ source p g₀, s.source = some source ∧ s.split? source = some (p, g₀) ∧
    g₀.Later s.graph
  /-- The session runs nodes. -/
  mode_eq : s.mode = .incremental
  /-- The graph is well-formed. -/
  wellFormed : s.graph.WellFormed
  /-- No node has two segments on view. -/
  distinct : s.view.Distinct
  /-- Only nodes have segments. -/
  mem_ids : ∀ id ∈ Table.keys s.view.segments, id ∈ s.graph.ids
  /-- What nodes show. -/
  shown : ∀ id, s.view.shown id = [] ∨ ∃ c ∈ calls, c.completes = true ∧ c.visit.node = id ∧
    s.view.shown id = c.units

/-- There are no nodes, and what is on view are the units of some interpretation, if there is
anything. -/
structure ScriptShows (s : Session) : Prop where
  /-- There is no program. -/
  program_eq : s.program = none
  /-- There are no nodes. -/
  graph_eq : s.graph = .ofSettings s.settings
  /-- What is on view. -/
  view_eq : s.view = .empty ∨ s.mode = .fullRerun ∧ ∃ source script inputs units,
    s.source = some source ∧ Script.ofSource source.text = .ok script ∧
    script.interpret source.file inputs s.settings.recursionLimit = .ok units ∧
    s.view = View.empty.replace View.wholeScript units

/-- What is on view goes back to calls of nodes, or to an interpretation. -/
structure Traced (calls : List Call) (s : Session) : Prop where
  /-- All calls are calls of the nodes of the script. -/
  callsNode : ∀ c ∈ calls, ∃ p d, s.CallsNode c p d
  /-- What is on view. -/
  shows : s.NodesShow calls ∨ s.ScriptShows

/-- The emissions of a call that completed. -/
theorem CallsNode.nodeEmits {c : Call} {d : Declaration} (h : s.CallsNode c p d) (hc : c ∈ calls)
    (hcompletes : c.completes = true) {e : Emission}
    (he : e ∈ d.emissions p s.settings.recursionLimit c.visit) : s.NodeEmits calls e := by
  obtain ⟨hsplit, hd, hnode, -⟩ := h
  obtain ⟨script, hsplits, -⟩ := hsplit.exists_script
  refine ⟨p, hsplit, List.mem_flatMap.2 ⟨c, List.mem_filter.2 ⟨hc, hcompletes⟩, ?_⟩⟩
  rw [hnode, hsplits.declaration?_eq hd]
  exact he

theorem CallsNode.congr {c : Call} {d : Declaration} (h : s.CallsNode c p d)
    (hsettings : t.settings = s.settings) (hsource : t.source = s.source) :
    t.CallsNode c p d := by
  obtain ⟨⟨source, g₀, hsome, hsplit⟩, hd, hnode, houtcome⟩ := h
  refine ⟨⟨source, g₀, hsource.trans hsome, (split?_congr hsettings source).trans hsplit⟩, hd,
    hnode, ?_⟩
  rw [hsettings]
  exact houtcome

theorem ScriptShows.fresh (id : SessionId) (settings : Settings) : ScriptShows (fresh id settings) :=
  ⟨rfl, rfl, Or.inl rfl⟩

theorem Traced.sameContent (h : s.Traced calls) (hsame : s.SameContent t) : t.Traced calls := by
  obtain ⟨hsettings, hmode, hsource, hprogram, hgraph, hview⟩ := hsame
  refine ⟨fun c hc => ?_, ?_⟩
  · obtain ⟨p, d, hcalls⟩ := h.callsNode c hc
    exact ⟨p, d, hcalls.congr hsettings hsource⟩
  · rcases h.shows with hnodes | hscript
    · refine Or.inl ⟨?_, hmode.trans hnodes.mode_eq, hgraph ▸ hnodes.wellFormed,
        hview ▸ hnodes.distinct, hview ▸ hgraph ▸ hnodes.mem_ids, hview ▸ hnodes.shown⟩
      rw [hsource, hgraph]
      simp only [split?_congr hsettings]
      exact hnodes.split
    · refine Or.inr ⟨hprogram.trans hscript.program_eq, ?_, ?_⟩
      · rw [hgraph, hsettings]
        exact hscript.graph_eq
      · rw [hview, hmode, hsource, hsettings]
        exact hscript.view_eq

/-- Nothing is on view once the script has been loaded, or its nodes have been set up anew. -/
theorem Traced.reloads (h : s.Traced calls) (hreloads : s.Reloads t) : t.Traced calls := by
  obtain ⟨hsettings, hsource, hview, hcontent⟩ := hreloads
  refine ⟨fun c hc => ?_, ?_⟩
  · obtain ⟨p, d, hcalls⟩ := h.callsNode c hc
    refine ⟨p, d, hcalls.congr hsettings (hsource.resolve_left fun hnone => ?_)⟩
    obtain ⟨⟨source, g₀, hsome, -⟩, -⟩ := hcalls
    cases hnone.symm.trans hsome
  · rcases hcontent with ⟨source, p, hsome, hsplit, hmode, -⟩ | ⟨hgraph, hprogram⟩
    · obtain ⟨_, -, -, -, hinstalled, -⟩ := exists_installed_of_split? hsplit
      refine Or.inl ⟨⟨source, p, t.graph, hsome, (split?_congr hsettings source).trans hsplit,
        .refl _⟩, hmode, hinstalled.wellFormed, ?_, ?_, ?_⟩
      · rw [hview]
        exact View.distinct_empty
      · rw [hview]
        exact List.forall_mem_nil _
      · intro id
        rw [hview]
        exact Or.inl rfl
    · exact Or.inr ⟨hprogram, hsettings ▸ hgraph, Or.inl hview⟩

/-- Every node of the graph is that of a declaration. -/
theorem NodesShow.exists_declaration (h : s.NodesShow calls) {id : NodeId} {n : Node}
    (hn : s.graph.node? id = some n) :
    ∃ p d, s.IsSplit p ∧ d ∈ p.nodes ∧ id = d.id ∧
      n.body = d.body p s.settings.recursionLimit := by
  obtain ⟨source, p, g₀, hsource, hsplit, hlater⟩ := h.split
  obtain ⟨_, -, -, -, hinstalled, -⟩ := exists_installed_of_split? hsplit
  obtain ⟨n₀, hn₀⟩ := Graph.mem_ids_iff.1 (hlater.ids_eq ▸ Graph.mem_ids_iff.2 ⟨n, hn⟩)
  obtain ⟨m, hm, hbody, -⟩ := hlater.node? id n₀ hn₀
  obtain rfl := Option.some.inj (hm.symm.trans hn)
  obtain ⟨d, hd, hid, hcore⟩ := hinstalled.exists_declaration hn₀
  exact ⟨p, d, ⟨source, g₀, hsource, hsplit⟩, hd, hid.symm,
    hbody.trans (congrArg Node.body hcore :)⟩

/-- The calls of a walk are calls of the nodes of the script. -/
theorem NodesShow.callsNode (h : s.NodesShow calls) {recompute : Option (List NodeId)}
    {inputs : InputTable} {c : Call} (hc : c ∈ s.graph.executeCalls recompute inputs) :
    ∃ p d, s.CallsNode c p d := by
  obtain ⟨n, hn, houtcome⟩ := Graph.exists_body_of_mem_visitAllCalls hc
  obtain ⟨p, d, hsplit, hd, hid, hbody⟩ := h.exists_declaration hn
  exact ⟨p, d, hsplit, hd, hid, houtcome.trans (congrFun hbody _)⟩

/-- What a report shows of a node goes back to calls if what it showed before does. -/
theorem shown_of_execute {g g' : Graph} {recompute : Option (List NodeId)} {inputs : InputTable}
    {r : Report} {shown : NodeId → List OutputUnit}
    (hexecute : g.execute recompute inputs = (some r, g')) (id : NodeId)
    (h : shown id = [] ∨ ∃ c ∈ calls, c.completes = true ∧ c.visit.node = id ∧ shown id = c.units) :
    r.show shown id = [] ∨ ∃ c ∈ calls ++ g.executeCalls recompute inputs, c.completes = true ∧
      c.visit.node = id ∧ r.show shown id = c.units := by
  rw [Report.show]
  split
  · exact Or.inl rfl
  · cases houtput : Table.get? id r.outputs with
    | none =>
      refine h.imp_right ?_
      rintro ⟨c, hc, hrest⟩
      exact ⟨c, List.mem_append_left _ hc, hrest⟩
    | some units =>
      have hmem := Table.mem_of_get? houtput
      rw [(Graph.outputs_eq_completed_calls hexecute).1] at hmem
      obtain ⟨c, hc, heq⟩ := List.mem_map.1 hmem
      obtain ⟨hc, hcompletes⟩ := List.mem_filter.1 hc
      cases heq
      exact Or.inr ⟨c, List.mem_append_right _ hc, hcompletes, rfl, rfl⟩

theorem NodesShow.mono (h : s.NodesShow calls) (new : List Call) : s.NodesShow (calls ++ new) where
  split := h.split
  mode_eq := h.mode_eq
  wellFormed := h.wellFormed
  distinct := h.distinct
  mem_ids := h.mem_ids
  shown id := by
    refine (h.shown id).imp_right ?_
    rintro ⟨c, hc, hrest⟩
    exact ⟨c, List.mem_append_left _ hc, hrest⟩

/-- A graph of nodes after a walk. -/
theorem NodesShow.walked (h : s.NodesShow calls) {recompute : Option (List NodeId)}
    {inputs : InputTable} {o : Option Report} {g' : Graph}
    (hexecute : s.graph.execute recompute inputs = (o, g')) :
    ({ s with graph := g' } : Session).NodesShow calls := by
  have hlater := Graph.later_execute hexecute
  have hg' := Graph.wellFormed_visitAll recompute inputs s.graph.order h.wellFormed .empty
  rw [← Graph.execute, hexecute] at hg'
  obtain ⟨source, p, g₀, hsource, hsplit, hsince⟩ := h.split
  refine ⟨⟨source, p, g₀, hsource, hsplit, hsince.trans hlater⟩, h.mode_eq, hg', h.distinct, ?_,
    h.shown⟩
  intro id hid
  rw [hlater.ids_eq]
  exact h.mem_ids id hid

/-- What is on view goes back to calls after a walk. -/
theorem NodesShow.walk (h : s.NodesShow calls) {recompute : Option (List NodeId)}
    {inputs : InputTable} {r : Report} {g' : Graph}
    (hexecute : s.graph.execute recompute inputs = (some r, g')) :
    (({ s with graph := g' } : Session).apply r).NodesShow
      (calls ++ s.graph.executeCalls recompute inputs) := by
  obtain ⟨hmentions, hsub⟩ := Graph.nodup_mentions_of_execute h.wellFormed hexecute
  have hwalked := h.walked hexecute
  obtain ⟨hdistinct, hshown, hkeys⟩ := shown_apply hwalked.distinct hmentions
  obtain ⟨audience, happly⟩ := apply_eq r { s with graph := g' }
  have hgraph := graph_apply r { s with graph := g' }
  refine ⟨?_, by rw [happly]; exact h.mode_eq, ?_, hdistinct, ?_, ?_⟩
  · rw [happly]
    exact hwalked.split
  · rw [hgraph]
    exact hwalked.wellFormed
  · intro id hid
    rw [hgraph]
    rcases hkeys id hid with hid | hid
    · exact hwalked.mem_ids id hid
    · rw [(Graph.later_execute hexecute).ids_eq]
      exact hsub id hid
  · intro id
    rw [hshown]
    exact shown_of_execute hexecute id (h.shown id)

theorem Traced.callsNode_append (h : s.Traced calls) (hnew : ∀ c ∈ new, ∃ p d, s.CallsNode c p d)
    (hsettings : t.settings = s.settings) (hsource : t.source = s.source) :
    ∀ c ∈ calls ++ new, ∃ p d, t.CallsNode c p d := by
  intro c hc
  obtain ⟨p, d, hcalls⟩ := (List.mem_append.1 hc).elim (h.callsNode c) (hnew c)
  exact ⟨p, d, hcalls.congr hsettings hsource⟩

/-- Where there are nodes, there is a program. -/
theorem Traced.nodesShow (h : s.Traced calls) (hprogram : s.program ≠ none) : s.NodesShow calls :=
  h.shows.resolve_right fun hscript => hprogram hscript.program_eq

/-- A run keeps track of where units come from. -/
theorem Traced.runs (h : s.Traced calls) (hruns : s.Runs new t) : t.Traced (calls ++ new) := by
  cases hruns with
  | nothing hsame =>
    rw [List.append_nil]
    exact h.sameContent hsame
  | @walk recompute inputs r g' _ hmode hprogram hexecute hsame =>
    have hnodes := h.nodesShow hprogram
    obtain ⟨audience, happly⟩ := apply_eq r { s with graph := g' }
    refine Traced.sameContent ⟨?_, Or.inl (hnodes.walk hexecute)⟩ hsame
    exact h.callsNode_append (fun c hc => hnodes.callsNode hc) (by rw [happly]) (by rw [happly])
  | @whole source script inputs units _ hmode hsource hparse hinterpret hsame =>
    rw [List.append_nil]
    refine Traced.sameContent ⟨fun c hc => ?_, ?_⟩ hsame
    · obtain ⟨p, d, hcalls⟩ := h.callsNode c hc
      exact ⟨p, d, hcalls.congr rfl rfl⟩
    · rcases h.shows with hnodes | hscript
      · cases hnodes.mode_eq.symm.trans hmode
      · exact Or.inr ⟨hscript.program_eq, hscript.graph_eq, Or.inr ⟨hmode, source, script, inputs,
          units, hsource, hparse, hinterpret, rfl⟩⟩

/-- A run that breaks off leaves everything on view. -/
theorem Traced.breaksOff (h : s.Traced calls) (hbreaks : s.BreaksOff new t) :
    t.Traced (calls ++ new) := by
  cases hbreaks with
  | @walk recompute inputs g' _ hmode hprogram hexecute hsame =>
    have hnodes := h.nodesShow hprogram
    refine Traced.sameContent ⟨?_, Or.inl ((hnodes.walked hexecute).mono _)⟩ hsame
    exact h.callsNode_append (fun c hc => hnodes.callsNode hc) rfl rfl

theorem Traced.prepares (h : s.Traced calls) (hprepares : s.Prepares t) : t.Traced calls :=
  hprepares.elim h.sameContent h.reloads

theorem Traced.effect {α : Type} {r : Reply α × Session} (h : s.Traced calls)
    (heffect : Effect s.Prepares new r) : r.2.Traced (calls ++ new) := by
  obtain ⟨t, hprepares, hruns | hbreaks⟩ := heffect
  · exact (h.prepares hprepares).runs ‹_›
  · exact (h.prepares hprepares).breaksOff ‹_›

/-- **What is on view always goes back to calls of nodes, or to an interpretation.** -/
theorem Chronicle.traced {id : SessionId} {settings : Settings} {broken : Bool}
    (h : Chronicle id settings calls broken s) : s.Traced calls :=
  (h.induct (P := fun calls _ s => s.Traced calls)
    ⟨List.forall_mem_nil _, Or.inr (.fresh id settings)⟩ (fun h hsame => h.sameContent hsame)
    fun now c _ hs h => h.effect (hs.effect now c)).2

/-! ## The units on view -/

/-- Nodes of a graph, in its order, come from declarations. -/
theorem exists_declarations {order : List NodeId} {nodes : List Declaration}
    (h : ∀ id ∈ order, ∃ d ∈ nodes, d.id = id) :
    ∃ ds, ds.map Declaration.id = order ∧ ds ⊆ nodes := by
  induction order with
  | nil => exact ⟨[], rfl, List.nil_subset _⟩
  | cons id order ih =>
    obtain ⟨⟨d, hd, rfl⟩, hrest⟩ := List.forall_mem_cons.1 h
    obtain ⟨ds, rfl, hsub⟩ := ih hrest
    exact ⟨d :: ds, rfl, List.cons_subset.2 ⟨hd, hsub⟩⟩

/-- Calls of the same node are calls of the same declaration. -/
theorem CallsNode.unique {c : Call} {d d' : Declaration} (h : s.CallsNode c p d)
    (hsplit : s.IsSplit p') (hd' : d' ∈ p'.nodes) (hnode : c.visit.node = d'.id) :
    p = p' ∧ d = d' := by
  obtain ⟨hsplit', hd, hnode', -⟩ := h
  obtain rfl := hsplit'.unique hsplit
  obtain ⟨script, hsplits, -⟩ := hsplit.exists_script
  exact ⟨rfl, List.inj_on_of_nodup_map hsplits.nodup_nodes hd hd' (hnode'.symm.trans hnode)⟩

/-- What a node shows are emissions under its own anchor. -/
theorem Traced.exists_emissions_of_node (h : s.Traced calls) (hnodes : s.NodesShow calls)
    (hsplit : s.IsSplit p) {d : Declaration} (hd : d ∈ p.nodes) :
    ∃ es : List Emission, es.map Emission.unit = s.view.shown d.id ∧
      Attributed p.file [d.span] es ∧ ∀ e ∈ es, s.NodeEmits calls e := by
  rcases hnodes.shown d.id with hnone | ⟨c, hc, hcompletes, hnode, hshown⟩
  · exact ⟨[], hnone.symm, .nil _ _, List.forall_mem_nil _⟩
  · obtain ⟨p', d', hcalls⟩ := h.callsNode c hc
    obtain ⟨rfl, rfl⟩ := hcalls.unique hsplit hd hnode
    obtain ⟨hattributed, hunits⟩ :=
      d'.attributed_emissions p' s.settings.recursionLimit c.visit
    refine ⟨_, ?_, hattributed, fun e he => hcalls.nodeEmits hc hcompletes he⟩
    rw [hunits, hshown, Call.units, hcalls.outcome_eq]

/-- The units of the nodes on view come from different sites. -/
theorem Traced.exists_emissions_of_nodes (h : s.Traced calls) (hnodes : s.NodesShow calls) :
    ∃ es : List Emission, es.map Emission.unit = s.view.units s.graph.order ∧
      (es.map Emission.site).Nodup ∧ ∀ e ∈ es, e.unit.BelongsAt e.site ∧ s.NodeEmits calls e := by
  obtain ⟨source, p, g₀, hsource, hsplitInto, -⟩ := hnodes.split
  have hsplit : s.IsSplit p := ⟨source, g₀, hsource, hsplitInto⟩
  obtain ⟨script, hsplits, hspans⟩ := hsplit.exists_script
  have horder : ∀ id ∈ s.graph.order, ∃ d ∈ p.nodes, d.id = id := by
    intro id hid
    obtain ⟨n, hn⟩ := Graph.mem_ids_iff.1 (hnodes.wellFormed.mem_order_iff.1 hid)
    obtain ⟨p', d, hsplit', hd, hid, -⟩ := hnodes.exists_declaration hn
    obtain rfl := hsplit'.unique hsplit
    exact ⟨d, hd, hid.symm⟩
  obtain ⟨ds, hds, hsub⟩ := exists_declarations horder
  have hnodup : ds.Nodup := List.Nodup.of_map Declaration.id (hds ▸ hnodes.wellFormed.nodup_order)
  have hemissions : ∀ d ∈ ds, ∃ es : List Emission, es.map Emission.unit = s.view.shown d.id ∧
      Attributed p.file [d.span] es ∧ ∀ e ∈ es, s.NodeEmits calls e :=
    fun d hd => h.exists_emissions_of_node hnodes hsplit (hsub hd)
  choose! emissions hunits hattributed hemits using hemissions
  have hall := hsplits.attributed_flatMap hspans hnodup hsub hattributed
  refine ⟨ds.flatMap emissions, ?_, hall.nodup, fun e he => ⟨hall.belongs e he, ?_⟩⟩
  · rw [View.units_eq fun id hid => hnodes.wellFormed.mem_order_iff.2 (hnodes.mem_ids id hid), ← hds,
      List.map_flatMap, List.flatMap_map]
    exact List.flatMap_congr hunits
  · obtain ⟨d, hd, he⟩ := List.mem_flatMap.1 he
    exact hemits d hd e he

theorem ScriptShows.wellFormed (h : s.ScriptShows) : s.graph.WellFormed :=
  h.graph_eq ▸ Graph.wellFormed_empty _ _

/-- The units of a script on view come from different sites. -/
theorem ScriptShows.exists_emissions (h : s.ScriptShows) :
    ∃ es : List Emission, es.map Emission.unit = s.view.units s.graph.order ∧
      (es.map Emission.site).Nodup ∧ ∀ e ∈ es, e.unit.BelongsAt e.site ∧ s.ScriptEmits e := by
  have horder : s.graph.order = [] := by
    refine List.eq_nil_iff_forall_not_mem.2 fun id hid => ?_
    have hmem := h.wellFormed.mem_order_iff.1 hid
    rw [h.graph_eq] at hmem
    cases hmem
  rw [horder]
  rcases h.view_eq with hview | ⟨hmode, source, script, inputs, units, hsource, hparse, hinterpret,
    hview⟩
  · rw [hview]
    exact ⟨[], rfl, List.nodup_nil, List.forall_mem_nil _⟩
  · have hattributed := Script.attributed_emissions hparse source.file inputs
      s.settings.recursionLimit
    refine ⟨script.emissions source.file inputs s.settings.recursionLimit, ?_, hattributed.nodup,
      fun e he => ⟨hattributed.belongs e he, source, script, inputs, units, hsource, hmode, hparse,
        hinterpret, he⟩⟩
    rw [hview, units_replace_wholeScript, Script.map_unit_emissions hparse hinterpret]

/-- **Units come from different sites, and what is hashed for them tells these apart.**

* Whenever a script is run as a whole, its emissions come from different sites, and they are what an
  interpretation returns.
* Whatever a session was asked for before, the units that it has on view are emissions from different
  sites: of calls of nodes that completed, or of one interpretation.
* The bytes that are hashed for a unit determine its kind and its site, whatever the name of the
  script is.
* So two emissions whose units share an id either come from the same site and are of the same kind, or
  else different bytes were hashed, and the hashes begin with the same four bytes. -/
theorem unit_sites_are_unique :
    (∀ (text : String) (script : Script) (file : String) (inputs : InputTable) (limit : Nat),
      Script.ofSource text = .ok script →
        ((script.emissions file inputs limit).map Emission.site).Nodup ∧
        (∀ e ∈ script.emissions file inputs limit,
          e.site.file = file ∧ e.unit.BelongsAt e.site) ∧
        ∀ units, script.interpret file inputs limit = .ok units →
          (script.emissions file inputs limit).map Emission.unit = units) ∧
    (∀ (id : SessionId) (settings : Settings) (calls : List Call) (broken : Bool) (s : Session),
      Chronicle id settings calls broken s →
        ∃ es : List Emission, es.map Emission.unit = s.view.units s.graph.order ∧
          (es.map Emission.site).Nodup ∧
          ∀ e ∈ es, e.unit.BelongsAt e.site ∧ (s.NodeEmits calls e ∨ s.ScriptEmits e)) ∧
    (∀ (c c' : Component) (site site' : Site), site.Fits → site'.Fits →
      site.preimage c.name = site'.preimage c'.name → c = c' ∧ site = site') ∧
    ∀ e e' : Emission, e.unit.BelongsAt e.site → e'.unit.BelongsAt e'.site →
      e.site.Fits → e'.site.Fits → e.unit.id = e'.unit.id →
        e.unit.kind = e'.unit.kind ∧ (e.site = e'.site ∨
          e.site.preimage e.unit.kind ≠ e'.site.preimage e'.unit.kind ∧
          (Digest.hash (e.site.preimage e.unit.kind)).take 4
            = (Digest.hash (e'.site.preimage e'.unit.kind)).take 4) := by
  refine ⟨?_, ?_, fun c c' site site' hsite hsite' => Site.preimage_inj hsite hsite', ?_⟩
  · intro text script file inputs limit hparse
    have hattributed := Script.attributed_emissions hparse file inputs limit
    exact ⟨hattributed.nodup, fun e he => ⟨hattributed.file_eq e he, hattributed.belongs e he⟩,
      fun units => Script.map_unit_emissions hparse⟩
  · intro id settings calls broken s h
    have htraced := h.traced
    rcases htraced.shows with hnodes | hscript
    · obtain ⟨es, hunits, hnodup, hes⟩ := htraced.exists_emissions_of_nodes hnodes
      exact ⟨es, hunits, hnodup, fun e he => ⟨(hes e he).1, Or.inl (hes e he).2⟩⟩
    · obtain ⟨es, hunits, hnodup, hes⟩ := hscript.exists_emissions
      exact ⟨es, hunits, hnodup, fun e he => ⟨(hes e he).1, Or.inr (hes e he).2⟩⟩
  · intro e e' hbelongs hbelongs' hfits hfits' hid
    obtain ⟨⟨c, hkind⟩, hunit⟩ := hbelongs
    obtain ⟨⟨c', hkind'⟩, hunit'⟩ := hbelongs'
    rw [hunit, hunit', hkind, hkind'] at hid
    obtain ⟨rfl, hhash⟩ := UnitId.ofSite_inj hid
    rw [hkind, hkind']
    refine ⟨rfl, ?_⟩
    by_cases hsite : e.site = e'.site
    · exact Or.inl hsite
    · exact Or.inr ⟨fun hsame => hsite (Site.preimage_inj hfits hfits' hsame).2, hhash⟩

/-! ## A box, and a call that emits many texts -/

/-- The box and its text are on view once the script has been loaded. -/
theorem exists_units_of_tick : ∃ g, untouched.split? tickSource = some (tickProgram, g) ∧
    (untouched.beforeTick g).1.settle.toOption.isSome ∧
    ((untouched.beforeTick g).2.view.units (untouched.beforeTick g).2.graph.order).length = 2 :=
  exists_split?_of_install untouched rfl (by decide +kernel)

/-- The session that has been started has called the nodes of the script, and no walk broke off. -/
theorem chronicle_start_tick {g : Graph}
    (hsplit : untouched.split? tickSource = some (tickProgram, g))
    (hdone : (untouched.beforeTick g).1.settle.toOption.isSome) :
    Chronicle ⟨"main"⟩ .standard (g.executeCalls none []) false
      (untouched.boxed g) := by
  have hfresh : Chronicle ⟨"main"⟩ .standard [] false untouched := .fresh
  have hstarted := hfresh.perform ⟨0⟩ (.start tickSource)
  have hcalls : untouched.callsOf ⟨0⟩ (.start tickSource) = g.executeCalls none [] := by
    rw [callsOf, if_pos (show untouched.state = .initial from rfl), loadCalls, hsplit]
    rfl
  rwa [perform_start_tick rfl hsplit hdone, hcalls, List.nil_append] at hstarted

/-- Where the texts come from that one call emits one after another. -/
def textSite (occurrence : Nat) : Site := ⟨"app.tr", ⟨1, 1⟩, ⟨1, 1⟩, occurrence⟩

/-- One of these texts. -/
def textEmission (occurrence : Nat) : Emission :=
  ⟨textSite occurrence, ⟨.ofSite "text" (textSite occurrence), "text", .null, 1⟩⟩

/-- **Two texts of a call can share an id.** -/
theorem ofSite_textSite_collides :
    UnitId.ofSite "text" (textSite 86182) = UnitId.ofSite "text" (textSite 87629) := by
  decide +kernel

/-- The theorem applies to the session with the box, and to two texts that share an id. -/
theorem unit_sites_are_unique_of_tick :
    ((tickScript.emissions "app.tr" [] 64).map Emission.site).Nodup ∧
    (∃ (calls : List Call) (broken : Bool) (s : Session) (es : List Emission),
      Chronicle ⟨"main"⟩ .standard calls broken s ∧ (s.view.units s.graph.order).length = 2 ∧
      es.map Emission.unit = s.view.units s.graph.order ∧ (es.map Emission.site).Nodup) ∧
    (textSite 86182).preimage "text" ≠ (textSite 87629).preimage "text" ∧
    (Digest.hash ((textSite 86182).preimage "text")).take 4
      = (Digest.hash ((textSite 87629).preimage "text")).take 4 := by
  obtain ⟨hinterpreted, hviewed, hhashed, hshared⟩ := unit_sites_are_unique
  have hone : (1 : Nat) < 2 ^ 32 := by decide
  have hfits : ∀ n, n < 2 ^ 32 → (textSite n).Fits := fun n hn => ⟨hone, hone, hone, hone, hn⟩
  have hbelongs : ∀ n, (textEmission n).unit.BelongsAt (textEmission n).site := fun n =>
    ⟨⟨.text, rfl⟩, rfl⟩
  have hfirst := hfits 86182 (by decide)
  have hsecond := hfits 87629 (by decide)
  refine ⟨(hinterpreted tickSource.text tickScript "app.tr" [] 64 ofSource_tickSource).1, ?_, ?_, ?_⟩
  · obtain ⟨g, hsplit, hdone, hlength⟩ := exists_units_of_tick
    have hchronicle := chronicle_start_tick hsplit hdone
    obtain ⟨es, hunits, hnodup, -⟩ := hviewed _ _ _ _ _ hchronicle
    refine ⟨_, _, _, es, hchronicle, ?_, hunits, hnodup⟩
    obtain ⟨_, _, hfinish⟩ := finish_eq ⟨0⟩ true (untouched.beforeTick g).2
    rw [boxed, hfinish]
    exact hlength
  · intro hsame
    cases (hhashed .text .text _ _ hfirst hsecond hsame).2
  · rcases (hshared (textEmission 86182) (textEmission 87629) (hbelongs _) (hbelongs _) hfirst hsecond
      ofSite_textSite_collides).2 with hsite | ⟨-, hhash⟩
    · cases hsite
    · exact hhash

end Session

end ReactiveScript

import ReactiveScript.Proofs.Graph.Producers
import ReactiveScript.Proofs.Session.Load

/-!
# Reruns forget nothing

What a session displays should be a matter of its script and of the inputs as they are, and not of
the batches in which they came.  For a script that is run as a whole this is plain.  For one that is
split into nodes it means that the nodes which a rerun leaves alone would do again what they did, and
this is so unless a node is forgotten: one that failed after it had emitted a unit that changes now,
when other units of the batch are known to affect other nodes.

* `Session.Forgets` — a rerun forgets a node.
* `Session.Follows` — the sessions that a start and reruns lead to that forget nothing.
* `Session.InStep`, `Session.WholeUpToDate` — the invariants of sessions in either mode.
* `Session.reruns_forget_nothing` — such a session displays what it would display after a restart.
-/

set_option autoImplicit false

namespace ReactiveScript

namespace View

/-- Units with the same id stand in the same segment. -/
def KeepsApart (v : View) : Prop :=
  ∀ e ∈ v.segments, ∀ u ∈ e.2, ∀ e' ∈ v.segments, ∀ u' ∈ e'.2, u'.id = u.id → e'.1 = e.1

instance (v : View) : Decidable v.KeepsApart :=
  inferInstanceAs (Decidable (∀ e ∈ v.segments, ∀ u ∈ e.2, ∀ e' ∈ v.segments, ∀ u' ∈ e'.2,
    u'.id = u.id → e'.1 = e.1))

theorem KeepsApart.apart {v : View} (h : v.KeepsApart) : Apart v.shown := by
  have hsegment : ∀ i, ∀ u ∈ v.shown i, ∃ e ∈ v.segments, e.1 = i ∧ u ∈ e.2 := by
    intro i u hu
    cases hget : Table.get? i v.segments with
    | none => simp [shown, segment?, hget] at hu
    | some units =>
      exact ⟨(i, units), Table.mem_of_get? hget, rfl, by simpa [shown, segment?, hget] using hu⟩
  intro i u hu j u' hu' heq
  obtain ⟨e, he, rfl, hmem⟩ := hsegment i u hu
  obtain ⟨e', he', rfl, hmem'⟩ := hsegment j u' hu'
  exact h e he u hmem e' he' u' hmem' heq

end View

namespace Session

variable {s t : Session} {settings : Settings} {source : Source} {p : Program} {g₀ g' : Graph}
  {r : Report}

/-- A rerun that runs what some changes affect forgets a node. -/
def Forgets (s : Session) (changes : Table UnitId Value) : Prop :=
  s.mode = .incremental ∧ s.graph.affectedBy (Table.keys (s.accepted changes)) ≠ [] ∧
    s.graph.Forgets s.inputs (Table.keys (s.accepted changes))

/-- The sessions that a start and reruns lead to, if no walk breaks off, no rerun forgets a node, and
no two nodes ever show units with the same id. -/
inductive Follows (settings : Settings) (source : Source) : Session → Prop
  /-- The session is started. -/
  | start {s : Session} (now : Instant) : s.settings = settings →
      (s.start now source).1 = .done () → Apart (s.start now source).2.view.shown →
      Follows settings source (s.start now source).2
  /-- Inputs change. -/
  | rerun {s : Session} (now : Instant) (origin : Option ObserverId)
      (changes : Table UnitId Value) : Follows settings source s →
      (s.rerun now origin changes).1 ≠ .crashed → ¬ s.Forgets changes →
      Apart (s.rerun now origin changes).2.view.shown →
      Follows settings source (s.rerun now origin changes).2

/-! ## What a rerun runs -/

/-- A session that runs nodes runs those that are affected. -/
theorem runAgain_of_affected {changed : List UnitId} (hmode : s.mode = .incremental)
    (haffected : s.graph.affectedBy changed ≠ []) : s.runAgain changed
      = ((s.runNodes (some (s.graph.affectedBy changed))).1.map fun _ =>
            .incremental (s.graph.affectedBy changed),
          (s.runNodes (some (s.graph.affectedBy changed))).2) := by
  rw [runAgain, hmode]
  dsimp only
  rw [runAffected]
  exact if_neg (mt List.isEmpty_iff.1 haffected)

/-- If no nodes are known to be affected, it runs all of them. -/
theorem runAgain_of_unaffected {changed : List UnitId} (hmode : s.mode = .incremental)
    (haffected : s.graph.affectedBy changed = []) :
    s.runAgain changed = (s.runCold.1.map fun _ => .fullRerun, s.runCold.2) := by
  rw [runAgain, hmode]
  dsimp only
  rw [runAffected]
  exact if_pos (List.isEmpty_iff.2 haffected)

/-! ## Scripts that are split -/

/-- What is known of the nodes that a script is split into. -/
structure Nodes (settings : Settings) (g₀ : Graph) : Prop where
  /-- The graph is well-formed. -/
  wellFormed : g₀.WellFormed
  /-- Nodes look at what they depend on. -/
  isLocal : g₀.Local
  /-- Nodes look at the inputs of their own units. -/
  heeds : ∀ id n, g₀.node? id = some n → n.body.HeedsOwnUnits
  /-- Nodes may take any time. -/
  timeout : settings.nodeTimeout = none
  /-- The settings of the session hold for the graph. -/
  timeout_eq : g₀.nodeTimeout = settings.nodeTimeout

/-- If the script is split into nodes, every name in it stands for the same at all times. -/
def SteadyIfSplit (settings : Settings) (source : Source) : Prop :=
  settings.incremental = true → ∀ script p, Script.ofSource source.text = .ok script →
    Program.ofSource source.file source.text = .ok p → script.Steady

/-- What is known of the nodes of a steady script. -/
theorem nodes_of_split? (hsettings : s.settings = settings) (htimeout : settings.nodeTimeout = none)
    (hsteady : SteadyIfSplit settings source) (hsplit : s.split? source = some (p, g₀)) :
    Nodes settings g₀ := by
  obtain ⟨hincremental, hprogram, -⟩ := split?_eq_some hsplit
  obtain ⟨script, hscript, h, -, hg, hgtimeout, -⟩ := exists_installed_of_split? hsplit
  rw [hsettings] at hincremental hgtimeout
  exact ⟨hg.wellFormed, (hsteady hincremental script p hscript hprogram).isLocal h hg,
    fun id n hn => h.heedsOwnUnits hg hn, htimeout, hgtimeout⟩

/-- A session whose script is split into nodes displays what the nodes come to under some inputs. -/
structure InStep (settings : Settings) (source : Source) (p : Program) (g₀ : Graph)
    (inputs : InputTable) (s : Session) : Prop where
  /-- The settings of the session. -/
  settings_eq : s.settings = settings
  /-- The script that was loaded. -/
  source_eq : s.source = some source
  /-- The program that it is split into. -/
  program_eq : s.program = some p
  /-- The session runs nodes. -/
  mode_eq : s.mode = .incremental
  /-- The script is split into these nodes. -/
  split_eq : s.split? source = some (p, g₀)
  /-- They are the nodes of a steady script. -/
  nodes : Nodes settings g₀
  /-- The nodes have been there since. -/
  later : g₀.Later s.graph
  /-- The graph is well-formed. -/
  wellFormed : s.graph.WellFormed
  /-- Nodes look at what they depend on. -/
  isLocal : s.graph.Local
  /-- The nodes have come to their verdicts. -/
  settled : s.graph.Settled inputs s.view.shown
  /-- Every unit on view is on record as its node's. -/
  credits : s.graph.Credits s.view.shown
  /-- No node has two segments on view. -/
  distinct : s.view.Distinct
  /-- Only nodes have segments. -/
  mem_ids : ∀ id ∈ Table.keys s.view.segments, id ∈ s.graph.ids
  /-- What is on view has been packed. -/
  rows_eq : s.rows = OutputUnit.pack (s.graph.order.flatMap s.view.shown)

/-- A session is in step with its inputs. -/
def UpToDate (settings : Settings) (source : Source) (p : Program) (g₀ : Graph) (s : Session) :
    Prop := InStep settings source p g₀ s.inputs s

/-- The end of a run after a walk packs what the walk left on view. -/
theorem rows_finish_walk {recompute : Option (List NodeId)} (hwell : t.graph.WellFormed)
    (hdistinct : t.view.Distinct) (hids : ∀ id ∈ Table.keys t.view.segments, id ∈ t.graph.ids)
    (hexecute : t.graph.execute recompute t.inputs = (some r, g')) (hg' : g'.WellFormed)
    (now : Instant) (force : Bool) :
    ((({ t with graph := g' } : Session).apply r).finish now force).rows
      = OutputUnit.pack (g'.order.flatMap (r.show t.view.shown)) := by
  obtain ⟨hmentions, hsub⟩ := Graph.nodup_mentions_of_execute hwell hexecute
  have horder : ∀ id ∈ t.graph.ids, id ∈ g'.order := fun id hid =>
    hg'.mem_order_iff.2 ((Graph.later_execute hexecute).ids_eq ▸ hid)
  exact rows_finish_apply now force (t := { t with graph := g' }) rfl hdistinct hmentions
    (fun id hid => horder id (hids id hid)) fun id hid => horder id (hsub id hid)

/-- The end of a run after a walk that settled the graph. -/
theorem inStep_finish {recompute : Option (List NodeId)} (hsettings : t.settings = settings)
    (hsource : t.source = some source)
    (hprogram : t.program = some p) (hmode : t.mode = .incremental)
    (hsplit : t.split? source = some (p, g₀)) (hnodes : Nodes settings g₀)
    (hlater : g₀.Later t.graph) (hwell : t.graph.WellFormed) (hcredits : t.graph.Credits t.view.shown)
    (hdistinct : t.view.Distinct) (hids : ∀ id ∈ Table.keys t.view.segments, id ∈ t.graph.ids)
    (hexecute : t.graph.execute recompute t.inputs = (some r, g')) (hg' : g'.WellFormed) (hlocal : g'.Local)
    (hsettled : g'.Settled t.inputs (r.show t.view.shown)) (now : Instant) (force : Bool)
    (hapart : Apart ((({ t with graph := g' } : Session).apply r).finish now force).view.shown) :
    UpToDate settings source p g₀ ((({ t with graph := g' } : Session).apply r).finish now force) := by
  have hlater' := Graph.later_execute hexecute
  obtain ⟨hmentions, hsub⟩ := Graph.nodup_mentions_of_execute hwell hexecute
  obtain ⟨hdistinct', hshown, hkeys⟩ :=
    shown_apply (s := { t with graph := g' }) (r := r) hdistinct hmentions
  have hrows := rows_finish_walk hwell hdistinct hids hexecute hg' now force
  obtain ⟨audience, happly⟩ := apply_eq r { t with graph := g' }
  obtain ⟨memo, audience', hfinish⟩ := finish_eq now force (({ t with graph := g' } : Session).apply r)
  rw [hfinish] at hapart hrows ⊢
  generalize ({ t with graph := g' } : Session).apply r = u at *
  have hgraph : u.graph = g' := by rw [happly]
  have hinputs : u.inputs = t.inputs := by rw [happly]
  have hapart : Apart u.view.shown := hapart
  refine ⟨by rw [happly]; exact hsettings, by rw [happly]; exact hsource,
    by rw [happly]; exact hprogram, by rw [happly]; exact hmode, by rw [happly]; exact hsplit,
    hnodes, hgraph ▸ hlater.trans hlater', hgraph ▸ hg', hgraph ▸ hlocal, ?_, ?_, hdistinct',
    fun id hid => ?_, ?_⟩
  · show u.graph.Settled u.inputs u.view.shown
    rw [hgraph, hinputs, hshown]
    exact hsettled
  · show u.graph.Credits u.view.shown
    rw [hshown] at hapart
    rw [hgraph, hshown]
    exact hcredits.execute hwell hexecute hapart
  · rw [hgraph, hlater'.ids_eq]
    exact (hkeys id hid).elim (hids id) (hsub id)
  · rw [hrows]
    show OutputUnit.pack _ = OutputUnit.pack (u.graph.order.flatMap u.view.shown)
    rw [hgraph, hshown]

/-- The end of a run of all nodes with nothing on view before. -/
theorem Nodes.inStep_all (h : Nodes settings g₀) (hsettings : t.settings = settings)
    (hsource : t.source = some source) (hprogram : t.program = some p)
    (hmode : t.mode = .incremental) (hsplit : t.split? source = some (p, g₀))
    (hgraph : t.graph = g₀) (hview : t.view = .empty)
    (hexecute : g₀.execute none t.inputs = (some r, g')) (now : Instant) (force : Bool)
    (hapart : Apart ((({ t with graph := g' } : Session).apply r).finish now force).view.shown) :
    UpToDate settings source p g₀ ((({ t with graph := g' } : Session).apply r).finish now force) := by
  subst hgraph
  obtain ⟨hg', hlocal, -, hsettled⟩ :=
    Graph.execute_all_settled h.wellFormed h.isLocal (h.timeout_eq.trans h.timeout) t.view.shown
      hexecute
  refine inStep_finish hsettings hsource hprogram hmode hsplit h (.refl _) h.wellFormed ?_ ?_ ?_
    hexecute hg' hlocal hsettled now force hapart
  · rw [hview]
    exact fun id u hu => absurd hu List.not_mem_nil
  · rw [hview]
    exact View.distinct_empty
  · rw [hview]
    exact List.forall_mem_nil _

namespace InStep

variable {inputs : InputTable}

/-- Other inputs can be taken up before the nodes come to terms with them. -/
theorem take {inputs' : InputTable} (h : InStep settings source p g₀ inputs s) (memo : Memo)
    (audience : Audience) : InStep settings source p g₀ inputs
      { s with inputMemo := memo, inputs := inputs', audience } :=
  { h with }

theorem nodeTimeout_eq (h : InStep settings source p g₀ inputs t) : t.graph.nodeTimeout = none :=
  h.later.nodeTimeout_eq.trans (h.nodes.timeout_eq.trans h.nodes.timeout)

theorem heeds (h : InStep settings source p g₀ inputs t) {id : NodeId} {n : Node}
    (hn : t.graph.node? id = some n) : n.body.HeedsOwnUnits := by
  obtain ⟨n₀, hn₀⟩ := Graph.mem_ids_iff.1 (h.later.ids_eq ▸ Graph.mem_ids_iff.2 ⟨n, hn⟩)
  obtain ⟨m, hm, hbody, -⟩ := h.later.node? id n₀ hn₀
  obtain rfl := Option.some.inj (hm.symm.trans hn)
  rw [hbody]
  exact h.nodes.heeds id n₀ hn₀

/-- A rerun of all nodes breaks off, or ends in step with the inputs. -/
theorem runCold (h : InStep settings source p g₀ inputs t) :
    t.runCold.1 = .crashed ∨ t.runCold.1 = .done () ∧ ∀ now force,
      Apart (t.runCold.2.finish now force).view.shown →
      UpToDate settings source p g₀ (t.runCold.2.finish now force) := by
  rw [runCold_of_split h.split_eq h.program_eq h.later]
  rcases runNodes_cases none { t with graph := g₀, view := .empty } with
    hcrashed | ⟨r, g', hexecute, hrun⟩
  · exact Or.inl hcrashed
  · rw [hrun]
    exact Or.inr ⟨rfl, fun now force => h.nodes.inStep_all
      (t := { t with graph := g₀, view := .empty }) h.settings_eq h.source_eq h.program_eq h.mode_eq
      h.split_eq rfl rfl hexecute now force⟩

/-- A rerun of what is affected breaks off, or ends in step with the inputs, unless it forgets a
node. -/
theorem runNodes (h : InStep settings source p g₀ inputs t) {changed : List UnitId}
    (hinputs : ∀ unit, unit ∉ changed → Table.get? unit t.inputs = Table.get? unit inputs)
    (hforgets : ¬ t.graph.Forgets inputs changed) :
    (t.runNodes (some (t.graph.affectedBy changed))).1 = .crashed ∨
      (t.runNodes (some (t.graph.affectedBy changed))).1 = .done () ∧ ∀ now force,
      Apart ((t.runNodes (some (t.graph.affectedBy changed))).2.finish now force).view.shown →
      UpToDate settings source p g₀
        ((t.runNodes (some (t.graph.affectedBy changed))).2.finish now force) := by
  rcases runNodes_cases (some (t.graph.affectedBy changed)) t with hcrashed | ⟨r, g', hexecute, hrun⟩
  · exact Or.inl hcrashed
  · obtain ⟨hg', hlocal, -, hsettled⟩ := h.settled.rerun h.wellFormed h.isLocal h.nodeTimeout_eq
      (fun _ _ => h.heeds) h.credits hinputs hforgets hexecute
    rw [hrun]
    exact Or.inr ⟨rfl, fun now force => inStep_finish h.settings_eq h.source_eq h.program_eq h.mode_eq
      h.split_eq h.nodes h.later h.wellFormed h.credits h.distinct h.mem_ids hexecute hg' hlocal hsettled now
      force⟩

/-- Running again what depends on some units breaks off, or ends in step with the inputs, unless it
forgets a node. -/
theorem runAgain (h : InStep settings source p g₀ inputs t) {changed : List UnitId}
    (hinputs : ∀ unit, unit ∉ changed → Table.get? unit t.inputs = Table.get? unit inputs)
    (hforgets : t.graph.affectedBy changed ≠ [] → ¬ t.graph.Forgets inputs changed) :
    (t.runAgain changed).1 = .crashed ∨ ∃ outcome, (t.runAgain changed).1 = .done outcome ∧
      ∀ now force, Apart ((t.runAgain changed).2.finish now force).view.shown →
        UpToDate settings source p g₀ ((t.runAgain changed).2.finish now force) := by
  by_cases haffected : t.graph.affectedBy changed = []
  · rw [runAgain_of_unaffected h.mode_eq haffected]
    rcases h.runCold with hcrashed | ⟨hdone, hstep⟩
    · rw [hcrashed]
      exact Or.inl rfl
    · rw [hdone]
      exact Or.inr ⟨_, rfl, hstep⟩
  · rw [runAgain_of_affected h.mode_eq haffected]
    rcases h.runNodes hinputs (hforgets haffected) with hcrashed | ⟨hdone, hstep⟩
    · rw [hcrashed]
      exact Or.inl rfl
    · rw [hdone]
      exact Or.inr ⟨_, rfl, hstep⟩

/-- A rerun keeps a session in step with its inputs, unless it forgets a node. -/
theorem rerun (h : UpToDate settings source p g₀ s) (now : Instant)
    (origin : Option ObserverId) (changes : Table UnitId Value)
    (hcrashed : (s.rerun now origin changes).1 ≠ .crashed) (hforgets : ¬ s.Forgets changes)
    (hapart : Apart (s.rerun now origin changes).2.view.shown) :
    UpToDate settings source p g₀ (s.rerun now origin changes).2 := by
  rcases rerun_cases now origin changes s with heq | ⟨-, heq⟩
  · rw [heq]
    exact h
  · obtain ⟨memo, inputs, audience, htake, hinputs⟩ := takeUp_eq origin changes s
    have hagain := runAgain (take h memo audience) hinputs
      fun haffected hgraph => hforgets ⟨h.mode_eq, haffected, hgraph⟩
    rw [← htake] at hagain
    rw [heq] at hcrashed hapart ⊢
    generalize (s.takeUp origin changes).runAgain (Table.keys (s.accepted changes)) = r
      at hagain hcrashed hapart ⊢
    obtain ⟨reply, u⟩ := r
    rcases hagain with rfl | ⟨outcome, rfl, hstep⟩
    · exact absurd rfl hcrashed
    · exact hstep now false hapart

end InStep

/-- Starting a session whose script is split into nodes brings it in step with its inputs. -/
theorem upToDate_load (now : Instant) (hsplit : s.split? source = some (p, g₀))
    (hsettings : s.settings = settings) (hnodes : Nodes settings g₀)
    (hdone : (s.load now source).1 = .done ()) (hapart : Apart (s.load now source).2.view.shown) :
    UpToDate settings source p g₀ (s.load now source).2 := by
  rw [load_eq_of_split now hsplit] at hdone hapart ⊢
  rcases runNodes_cases none (s.split source p g₀) with hcrashed | ⟨r, g', hexecute, hrun⟩
  · generalize (s.split source p g₀).runNodes none = u at hcrashed hdone
    obtain ⟨reply, u⟩ := u
    obtain rfl : reply = .crashed := hcrashed
    cases hdone
  · rw [hrun] at hapart ⊢
    exact hnodes.inStep_all (t := s.split source p g₀) hsettings rfl rfl rfl hsplit rfl rfl hexecute
      now true hapart

/-- A session that is up to date displays what it would display after a restart. -/
theorem UpToDate.restart (h : UpToDate settings source p g₀ s) (now : Instant) :
    ∃ s', s.restart now = (.done (), s') ∧ s'.rows = s.rows := by
  obtain ⟨report, g₂, hexecute, hids, horder, hshown⟩ := h.settled.exists_walk h.later
    h.nodes.wellFormed h.nodes.isLocal (h.nodes.timeout_eq.trans h.nodes.timeout) h.wellFormed
  have hmem : ∀ id ∈ g₀.ids, id ∈ g₂.order := fun id hid => by
    rw [horder, h.wellFormed.mem_order_iff, h.later.ids_eq]
    exact hid
  obtain ⟨s', hload, hrows⟩ := load_of_split now h.split_eq hexecute h.nodes.wellFormed hmem
  refine ⟨s', by rw [Session.restart, h.source_eq]; exact hload, ?_⟩
  rw [hrows, h.rows_eq, horder]
  refine congrArg OutputUnit.pack (List.flatMap_congr fun id hid => hshown id ?_)
  rw [h.wellFormed.mem_order_iff, h.later.ids_eq] at hid
  exact hid

/-! ## Scripts that are run as a whole -/

/-- A session whose script is run as a whole displays what it shows under the inputs as they are. -/
structure WholeUpToDate (source : Source) (script : Script) (s : Session) : Prop where
  /-- The text that was loaded. -/
  source_eq : s.source = some source
  /-- The script that it spells. -/
  parse_eq : Script.ofSource source.text = .ok script
  /-- The script that is run. -/
  script_eq : s.script = some script
  /-- The session runs it as a whole. -/
  mode_eq : s.mode = .fullRerun
  /-- It is not split into nodes. -/
  split_eq : s.split? source = none
  /-- There are no nodes. -/
  ids_eq : s.graph.ids = []
  /-- The graph is well-formed. -/
  wellFormed : s.graph.WellFormed
  /-- The units of the script have been packed. -/
  rows_eq : ∃ units, script.interpret source.file s.inputs s.settings.recursionLimit = .ok units ∧
    s.rows = OutputUnit.pack units

variable {script : Script}

/-- The end of a run of a script as a whole. -/
theorem wholeUpToDate_finish {units : List OutputUnit} (hsource : t.source = some source)
    (hparse : Script.ofSource source.text = .ok script) (hscript : t.script = some script)
    (hmode : t.mode = .fullRerun) (hsplit : t.split? source = none) (hids : t.graph.ids = [])
    (hwell : t.graph.WellFormed)
    (hinterpret : script.interpret source.file t.inputs t.settings.recursionLimit = .ok units)
    (now : Instant) (force : Bool) : WholeUpToDate source script
      (({ t with view := View.empty.replace View.wholeScript units } : Session).finish now force) := by
  have hrows := rows_finish_whole now force hids hwell units
  obtain ⟨memo, audience, hfinish⟩ :=
    finish_eq now force { t with view := View.empty.replace View.wholeScript units }
  rw [hfinish] at hrows ⊢
  exact ⟨hsource, hparse, hscript, hmode, hsplit, hids, hwell, units, hinterpret, hrows⟩

namespace WholeUpToDate

/-- A rerun keeps a session up to date, unless its script fails. -/
theorem rerun (h : WholeUpToDate source script s) (now : Instant) (origin : Option ObserverId)
    (changes : Table UnitId Value) : (s.rerun now origin changes).2.state = .error ∨
      WholeUpToDate source script (s.rerun now origin changes).2 := by
  rcases rerun_cases now origin changes s with heq | ⟨-, heq⟩
  · rw [heq]
    exact Or.inr h
  · obtain ⟨memo, inputs, audience, htake, -⟩ := takeUp_eq origin changes s
    let t : Session := { s with inputMemo := memo, inputs, audience }
    have hagain : t.runAgain (Table.keys (s.accepted changes))
        = (t.runWhole.1.map fun _ => .fullRerun, t.runWhole.2) := by
      rw [Session.runAgain, show t.mode = .fullRerun from h.mode_eq]
    rw [htake, hagain] at heq
    rw [heq]
    rcases runWhole_cases (s := t) h.script_eq h.source_eq with
      ⟨e, hrefused, hstate⟩ | ⟨units, audience', hinterpret, hrun⟩
    · rw [hrefused]
      exact Or.inl hstate
    · rw [hrun]
      exact Or.inr (wholeUpToDate_finish (t := { t with audience := audience' }) h.source_eq
        h.parse_eq h.script_eq h.mode_eq h.split_eq h.ids_eq h.wellFormed hinterpret now false)

/-- A session that is up to date displays what it would display after a restart. -/
theorem restart (h : WholeUpToDate source script s) (now : Instant) :
    ∃ s', s.restart now = (.done (), s') ∧ s'.rows = s.rows := by
  obtain ⟨units, hinterpret, hrows⟩ := h.rows_eq
  obtain ⟨s', hload, hrows'⟩ := load_of_whole now h.split_eq h.parse_eq hinterpret
  exact ⟨s', by rw [Session.restart, h.source_eq]; exact hload, hrows'.trans hrows.symm⟩

end WholeUpToDate

/-- Starting a session whose script is run as a whole brings it up to date. -/
theorem wholeUpToDate_load (now : Instant) (hsplit : s.split? source = none)
    (hdone : (s.load now source).1 = .done ()) :
    ∃ script, WholeUpToDate source script (s.load now source).2 := by
  cases hparse : Script.ofSource source.text with
  | error e =>
    have hsplit : ({ s.unload with source := some source } : Session).split? source = none := hsplit
    rw [load, hsplit] at hdone
    dsimp only at hdone
    rw [runWholeFrom, hparse] at hdone
    cases hdone
  | ok script =>
    refine ⟨script, ?_⟩
    rw [load_eq_of_whole now hsplit hparse] at hdone ⊢
    rcases runWhole_cases (s := s.whole source script) rfl rfl with
      ⟨e, hrefused, -⟩ | ⟨units, audience, hinterpret, hrun⟩
    · generalize (s.whole source script).runWhole = u at hrefused hdone
      obtain ⟨reply, u⟩ := u
      obtain rfl : reply = .refused e := hrefused
      cases hdone
    · rw [hrun]
      exact wholeUpToDate_finish (t := { s.whole source script with audience }) rfl hparse rfl rfl
        hsplit rfl (Graph.wellFormed_empty _ _) hinterpret now true

/-! ## Reruns -/

/-- A session that reacts to inputs and forgets nothing is up to date. -/
theorem Follows.upToDate (h : Follows settings source s) (htimeout : settings.nodeTimeout = none)
    (hsteady : SteadyIfSplit settings source) (hrunning : s.state = .running) :
    (∃ p g₀, UpToDate settings source p g₀ s) ∨ ∃ script, WholeUpToDate source script s := by
  induction h with
  | @start s now hsettings hdone hapart =>
    rw [Session.start] at hdone hapart ⊢
    split at hdone
    · rename_i hinitial
      rw [if_pos hinitial] at hapart ⊢
      cases hsplit : s.split? source with
      | some pg =>
        obtain ⟨p, g₀⟩ := pg
        exact Or.inl ⟨p, g₀, upToDate_load now hsplit hsettings
          (nodes_of_split? hsettings htimeout hsteady hsplit) hdone hapart⟩
      | none => exact Or.inr (wholeUpToDate_load now hsplit hdone)
    · cases hdone
  | @rerun s now origin changes _ hcrashed hforgets hapart ih =>
    have hbefore : s.state = .running := by
      rcases rerun_cases now origin changes s with heq | ⟨hbefore, -⟩
      · rwa [heq] at hrunning
      · exact hbefore
    rcases ih hbefore with ⟨p, g₀, hup⟩ | ⟨script, hup⟩
    · exact Or.inl ⟨p, g₀, InStep.rerun hup now origin changes hcrashed hforgets hapart⟩
    · refine Or.inr ⟨script, (hup.rerun now origin changes).resolve_left fun herror => ?_⟩
      cases herror.symm.trans hrunning

/-- **Reruns forget nothing.**  As long as a session reacts to inputs, and no walk has broken off, no
rerun has forgotten a node that failed, and no two nodes have shown units with the same id, it
displays what it would display after a restart, which would be carried out.  Nodes must have no
timeout, and in a script that is split into nodes every name has to stand for the same at all times. -/
theorem reruns_forget_nothing (h : Follows settings source s) (htimeout : settings.nodeTimeout = none)
    (hsteady : SteadyIfSplit settings source) (hrunning : s.state = .running) (now : Instant) :
    ∃ s', s.restart now = (.done (), s') ∧ s'.rows = s.rows := by
  rcases h.upToDate htimeout hsteady hrunning with ⟨p, g₀, hup⟩ | ⟨script, hup⟩
  · exact UpToDate.restart hup now
  · exact hup.restart now

/-! ## A box that is ticked -/

/-- A box, and a text that says whether it is ticked. -/
def tickSource : Source := ⟨"app.tr", "c = checkbox(\"C\")\ntext(str(c))\n"⟩

/-- The script that the text spells. -/
def tickScript : Script := ⟨[
  .assign ⟨1, 1⟩ "c" (.call ⟨1, 5⟩ "checkbox" [.literal ⟨1, 14⟩ (.text "C")] []),
  .expr ⟨2, 1⟩ (.call ⟨2, 1⟩ "text" [.call ⟨2, 6⟩ "str" [.name ⟨2, 10⟩ "c"] []] [])]⟩

/-- The node of the box. -/
def boxNode : NodeId := ⟨"atom_00001_001_checkbox"⟩

/-- The node of the text. -/
def textNode : NodeId := ⟨"atom_00002_001_text"⟩

/-- The nodes of the script: the text depends on the box. -/
def tickProgram : Program where
  file := "app.tr"
  nodes := [
    ⟨boxNode, "checkbox", ⟨1, 1⟩, some "c", [], [],
      .expression (.call ⟨1, 5⟩ "checkbox" [.literal ⟨1, 14⟩ (.text "C")] []), false⟩,
    ⟨textNode, "text", ⟨2, 1⟩, none, [boxNode], ["c"],
      .expression (.call ⟨2, 1⟩ "text" [.call ⟨2, 6⟩ "str" [.name ⟨2, 10⟩ "param0"] []] []), false⟩]
  functions := []
  globals := [("c", boxNode)]

/-- The unit that is the box. -/
def boxUnit : UnitId := ⟨"checkbox-e89a7346"⟩

/-- The box is ticked. -/
def tick : Table UnitId Value := [(boxUnit, .bool true)]

/-- The session after the walk over all nodes of a graph. -/
def beforeTick (s : Session) (g : Graph) : Reply Unit × Session :=
  (s.split tickSource tickProgram g).runNodes none

/-- The session once all nodes of a graph have run. -/
def boxed (s : Session) (g : Graph) : Session := (s.beforeTick g).2.finish ⟨0⟩ true

/-- The session after the walk over the nodes that the tick affects. -/
def afterTick (s : Session) : Reply Unit × Session :=
  (s.takeUp none tick).runNodes (some [boxNode, textNode])

/-- The session once the box has been ticked. -/
def ticked (s : Session) : Session := s.afterTick.2.finish ⟨10 ^ 9⟩ false

/-- No node has failed, and ticking the box runs both nodes again; no unit is shown twice, neither
before nor after. -/
def Ticks (s : Session) : Prop :=
  s.view.KeepsApart ∧ (∀ e ∈ s.graph.nodes, e.2.status ≠ .error) ∧ s.state = .running ∧
    s.isDebounced ⟨10 ^ 9⟩ = false ∧ Table.keys (s.accepted tick) = [boxUnit] ∧
    (s.takeUp none tick).mode = .incremental ∧
    (s.takeUp none tick).graph.producer? boxUnit = some boxNode ∧
    ((s.takeUp none tick).graph.node? boxNode).map Node.dependents = some [textNode] ∧
    ((s.takeUp none tick).graph.node? textNode).map Node.dependents = some [] ∧
    s.afterTick.1.settle.toOption.isSome ∧ s.afterTick.2.view.KeepsApart ∧
    s.afterTick.2.state = .running ∧ Table.keys s.afterTick.2.inputs = [boxUnit]

instance (s : Session) : Decidable s.Ticks := inferInstanceAs (Decidable (_ ∧ _))

theorem ofSource_tickSource : Script.ofSource tickSource.text = .ok tickScript := by cbv

/-- The script is split into a graph of which one can compute what is true. -/
theorem exists_split?_of_install {P : Graph → Prop} [DecidablePred P] (s : Session)
    (hincremental : s.settings.incremental = true)
    (hruns : (tickProgram.install s.settings.recursionLimit (.ofSettings s.settings)).toOption.map
      (fun g => decide (P g)) = some true) :
    ∃ g, s.split? tickSource = some (tickProgram, g) ∧ P g := by
  have hprogram : Program.ofScript "app.tr" tickScript = .ok tickProgram := by cbv
  have hsource : Program.ofSource tickSource.file tickSource.text = .ok tickProgram := by
    rw [Program.ofSource, ofSource_tickSource]
    exact hprogram
  cases hg : tickProgram.install s.settings.recursionLimit (.ofSettings s.settings) with
  | error e =>
    rw [hg] at hruns
    cases hruns
  | ok g =>
    rw [hg] at hruns
    exact ⟨g, split?_of_install hincremental hsource hg, of_decide_eq_true (Option.some.inj hruns)⟩

/-- The script is split, and no walk over its graph fails. -/
theorem exists_split?_tickSource : ∃ g, untouched.split? tickSource = some (tickProgram, g) ∧
    (untouched.beforeTick g).1.settle.toOption.isSome ∧ (untouched.boxed g).Ticks :=
  exists_split?_of_install untouched rfl (by decide +kernel)

/-- Loading the script of the box runs all nodes. -/
theorem load_eq_boxed {g : Graph} (hsplit : s.split? tickSource = some (tickProgram, g))
    (hdone : (s.beforeTick g).1.settle.toOption.isSome) :
    s.load ⟨0⟩ tickSource = (.done (), s.boxed g) := by
  obtain ⟨_, hdone⟩ := Reply.exists_done hdone
  exact load_of_done ⟨0⟩ hsplit hdone

/-- No node has failed, so no rerun forgets one. -/
theorem Ticks.not_forgets (h : s.Ticks) (changes : Table UnitId Value) : ¬ s.Forgets changes := by
  rintro ⟨_, _, id, n, hn, herror, _⟩
  exact h.2.1 (id, n) (Table.mem_of_get? hn) herror

/-- The tick is taken up, and both nodes are run. -/
theorem Ticks.rerun_eq (h : s.Ticks) : s.rerun ⟨10 ^ 9⟩ none tick
    = (.done (.incremental [boxNode, textNode]), s.ticked) := by
  obtain ⟨-, -, hrunning, hdebounced, htaken, hmode, hproducer, hbox, htext, hagain, -⟩ := h
  have haffected : (s.takeUp none tick).graph.affectedBy [boxUnit] = [boxNode, textNode] := by
    obtain ⟨n, hn, hdependents⟩ := Option.map_eq_some_iff.1 hbox
    obtain ⟨m, hm, hnone⟩ := Option.map_eq_some_iff.1 htext
    rw [Graph.affectedBy, List.filterMap_cons, hproducer]
    exact (Graph.affected_of_dependents hn hm hdependents hnone (by decide)).trans (by decide)
  obtain ⟨_, hagain⟩ := Reply.exists_done hagain
  have haccepted : s.accepted tick ≠ [] := fun hnone => by
    rw [hnone] at htaken
    cases htaken
  have hsome : (s.takeUp none tick).graph.affectedBy [boxUnit] ≠ [] := by simp [haffected]
  rw [Session.rerun_eq hrunning hdebounced haccepted, htaken, runAgain_of_affected hmode hsome,
    haffected]
  dsimp only [afterTick] at hagain ⊢
  rw [hagain]
  rfl

/-- The theorem applies to a box that has been ticked. -/
theorem reruns_forget_nothing_of_tick : ∃ s s', Follows .standard tickSource s ∧
    Table.keys s.inputs = [boxUnit] ∧ s.restart ⟨0⟩ = (.done (), s') ∧ s'.rows = s.rows := by
  obtain ⟨g, hsplit, hdone, hticks⟩ := exists_split?_tickSource
  have hstart : untouched.start ⟨0⟩ tickSource = (.done (), untouched.boxed g) :=
    (if_pos rfl).trans (load_eq_boxed hsplit hdone)
  set s := untouched.boxed g
  have hrerun := hticks.rerun_eq
  have hforgets := hticks.not_forgets tick
  obtain ⟨hapart, -, -, -, -, -, -, -, -, -, hapart', hrunning', hinputs⟩ := hticks
  have hstarted : Follows .standard tickSource s := by
    have h : _ → _ → Follows .standard tickSource _ := Follows.start (s := untouched) ⟨0⟩ rfl
    rw [hstart] at h
    exact h rfl hapart.apart
  obtain ⟨_, _, hfinish⟩ := finish_eq ⟨10 ^ 9⟩ false s.afterTick.2
  have hticked : Follows .standard tickSource s.ticked := by
    have h := hstarted.rerun ⟨10 ^ 9⟩ none tick
    rw [hrerun] at h
    refine h (by rintro ⟨⟩) hforgets ?_
    dsimp only
    rw [ticked, hfinish]
    exact hapart'.apart
  obtain ⟨s', hrestart, hrows⟩ := reruns_forget_nothing hticked rfl
    (fun _ script p hscript _ => by
      obtain rfl := Except.ok.inj (ofSource_tickSource.symm.trans hscript)
      exact Script.steady_of_functions_eq_nil rfl)
    (by rw [ticked, hfinish]; exact hrunning') ⟨0⟩
  exact ⟨_, s', hticked, by rw [ticked, hfinish]; exact hinputs, hrestart, hrows⟩

end Session

end ReactiveScript

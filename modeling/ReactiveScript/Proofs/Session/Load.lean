import Mathlib
import ReactiveScript.Proofs.Graph.Selective
import ReactiveScript.Proofs.Layout
import ReactiveScript.Proofs.Program.Interpretation
import ReactiveScript.Proofs.Session.Request

/-!
# Loading shows what interpretation shows

Loading a script runs it once, as a graph of nodes if it can be split, and as a whole otherwise.  If
interpreting it succeeds, loading it succeeds as well.  A script that is run as a whole shows the
units of interpretation.  A script that is split shows them statement by statement, in the order in
which the graph executes its nodes: this is the order of the source unless a statement that shows
something depends on one that comes later.

* `Script.Steady.exists_walk` — the first walk over the graph of a script.
* `Session.load_shows_interpretation` — what is on display after loading.
-/

set_option autoImplicit false

namespace ReactiveScript

open Relation

/-! ## The first walk -/

namespace Program.Installed

variable {p : Program} {limit : Nat} {g : Graph}

/-- No node has a retry policy of its own, so pauses fit if there is no policy at all. -/
theorem pausesFit (h : p.Installed limit g) (hretry : g.defaultRetry = none) {id : NodeId}
    {n : Node} (hn : g.node? id = some n) : g.PausesFit n := by
  obtain ⟨d, -, -, hcore⟩ := h.exists_declaration hn
  have hown : n.retry = none := (congrArg Node.retry hcore :)
  intro k _ _
  rw [Node.pauseFits, hown, hretry]
  rfl

end Program.Installed

namespace Script

variable {script : Script} {p : Program} {limit : Nat} {g : Graph} {inputs : InputTable}
  {units : List OutputUnit}

theorem keys_contributions (script : Script) (file : String) (inputs : InputTable) (limit : Nat) :
    Table.keys (script.contributions file inputs limit) = script.slots.map Slot.id := by
  have hslots := Stmt.map_slot_account (setting file inputs limit) script.body (.fresh []) (.start none)
  rw [Table.keys, contributions, List.map_map, slots, ← hslots, List.map_map]
  rfl

/-- The units that a statement shows when the script is interpreted. -/
def unitsOf (script : Script) (file : String) (inputs : InputTable) (limit : Nat) (id : NodeId) :
    List OutputUnit :=
  (Table.get? id (script.contributions file inputs limit)).getD []

/-- **The first walk over the graph of a script comes to its end**, and every node shows the units
that its statement shows when the script is interpreted. -/
theorem Steady.exists_walk (hsteady : script.Steady) (hfirst : script.DefinesFirst)
    (h : script.SplitsInto p) (hg : p.Installed limit g) (htimeout : g.nodeTimeout = none)
    (hretry : g.defaultRetry = none)
    (hinterpret : script.interpret p.file inputs limit = .ok units)
    (shown : NodeId → List OutputUnit) :
    ∃ r g', g.execute none inputs = (some r, g') ∧ g'.WellFormed ∧ g'.ids = g.ids ∧
      g'.order = g.order ∧
      ∀ id ∈ g.ids, r.show shown id = script.unitsOf p.file inputs limit id := by
  have hlocal := hsteady.isLocal h hg
  obtain ⟨r, hr⟩ := Option.isSome_iff_exists.1
    (Graph.execute_isSome_of_pausesFit none inputs fun id n hn => hg.pausesFit hretry hn)
  obtain ⟨g', hexecute⟩ : ∃ g', g.execute none inputs = (some r, g') := ⟨_, Prod.ext hr rfl⟩
  obtain ⟨hg', -, htimeout', hsettled⟩ := Graph.execute_all_settled hg.wellFormed hlocal htimeout
    shown hexecute
  have hlater := Graph.later_execute hexecute
  have halike := Graph.Alike.of_later hlater hlocal htimeout
  refine ⟨r, g', hexecute, hg', hlater.ids_eq, halike.order_eq hg.wellFormed hg', fun id hid => ?_⟩
  obtain ⟨val, hval⟩ := hsteady.exists_values hfirst h hinterpret
  have hnodup : (Table.keys (script.contributions p.file inputs limit)).Nodup := by
    rw [keys_contributions]
    exact h.ids_nodup
  obtain ⟨n, hn⟩ := Graph.mem_ids_iff.1 (hlater.ids_eq.symm ▸ hid)
  have hbody : ∀ id n', g'.node? id = some n' → ∀ v : Visit, v.inputs = inputs → v.limit = none →
      v.args = n'.params.map val →
      (∀ j, TransGen g'.DependsOn id j → Table.get? j v.values = some (val j)) →
      ∃ f, n'.body v = ⟨.value (val id), f⟩ ∧
        f.log.emitted.toList = script.unitsOf p.file inputs limit id := ?_
  · exact (hsettled.completed hg' htimeout' hbody hn).2.2
  intro id n' hn' v hinputs hlimit hargs hvalues
  obtain ⟨m, hm⟩ := Graph.mem_ids_iff.1 (hlater.ids_eq ▸ Graph.mem_ids_iff.2 ⟨n', hn'⟩)
  obtain ⟨d, hd, rfl, hcore⟩ := hg.exists_declaration hm
  obtain ⟨hbody, hparams, -⟩ := halike.node? d.id m n' hm hn'
  have hbody : n'.body = d.body p limit := hbody.trans (congrArg Node.body hcore :)
  have hparams : n'.params = d.dependencies := hparams.trans (congrArg Node.params hcore :)
  obtain ⟨us, hus, hruns⟩ := hval d hd
  rw [unitsOf, Table.get?_of_mem hnodup hus, hbody]
  exact hruns v hinputs hlimit (hparams ▸ hargs) fun j hj =>
    hvalues j ((halike.transGen_iff d.id j).2 (hg.dependsOn_eq ▸ hj))

end Script

/-! ## Sessions -/

namespace Session

variable {s : Session}

/-- The units of a whole script stand in one segment. -/
theorem units_replace_wholeScript (units : List OutputUnit) :
    (View.empty.replace View.wholeScript units).units [] = units := by
  rw [View.replace]
  split
  · rename_i hunits
    rw [List.isEmpty_iff.1 hunits]
    rfl
  · exact List.append_nil _

/-- The session before the first walk over the nodes of a script. -/
def split (source : Source) (p : Program) (g : Graph) (s : Session) : Session :=
  { s.unload with
    source := some source, program := some p, graph := g, mode := .incremental, state := .running }

/-- The session before the first run of a script as a whole. -/
def whole (source : Source) (script : Script) (s : Session) : Session :=
  { s.unload with
    source := some source, script := some script, mode := .fullRerun, state := .running }

theorem load_eq_of_split (now : Instant) {source : Source} {p : Program} {g : Graph}
    (hsplit : s.split? source = some (p, g)) :
    s.load now source = match (s.split source p g).runNodes none with
      | (.done _, s') => (.done (), s'.finish now true)
      | r => r := by
  have hsplit : ({ s.unload with source := some source } : Session).split? source = some (p, g) :=
    hsplit
  rw [load, hsplit]
  dsimp only
  rw [show ({ ({ s.unload with source := some source } : Session) with
    program := some p, graph := g, mode := .incremental, state := .running } : Session)
    = s.split source p g from rfl]
  rcases (s.split source p g).runNodes none with ⟨_ | _ | _, s'⟩ <;> rfl

/-- If all nodes of a script can be run, loading it comes to the end of a run. -/
theorem load_of_done (now : Instant) {source : Source} {p : Program} {g : Graph} {a : Unit}
    (hsplit : s.split? source = some (p, g))
    (hdone : ((s.split source p g).runNodes none).1 = .done a) :
    s.load now source = (.done (), ((s.split source p g).runNodes none).2.finish now true) := by
  rw [load_eq_of_split now hsplit]
  generalize (s.split source p g).runNodes none = run at hdone ⊢
  obtain ⟨reply, t⟩ := run
  obtain rfl : reply = .done a := hdone
  rfl

theorem load_eq_of_whole (now : Instant) {source : Source} {script : Script}
    (hsplit : s.split? source = none) (hparse : Script.ofSource source.text = .ok script) :
    s.load now source = match (s.whole source script).runWhole with
      | (.done _, s') => (.done (), s'.finish now true)
      | r => r := by
  have hsplit : ({ s.unload with source := some source } : Session).split? source = none := hsplit
  rw [load, hsplit]
  dsimp only
  rw [runWholeFrom, hparse]
  dsimp only
  rw [show ({ ({ s.unload with source := some source } : Session) with
    script := some script, mode := .fullRerun, state := .running } : Session)
    = s.whole source script from rfl]
  rcases (s.whole source script).runWhole with ⟨_ | _ | _, s'⟩ <;> rfl

/-- The end of a run of a whole script packs its units. -/
theorem rows_finish_whole (now : Instant) (force : Bool) {t : Session} (hgraph : t.graph.ids = [])
    (hwell : t.graph.WellFormed) (units : List OutputUnit) :
    (({ t with view := View.empty.replace View.wholeScript units } : Session).finish now force).rows
      = OutputUnit.pack units := by
  obtain ⟨_, _, hfinish⟩ :=
    finish_eq now force { t with view := View.empty.replace View.wholeScript units }
  have horder : t.graph.order = [] := List.eq_nil_iff_forall_not_mem.2 fun id hid => by
    rw [hwell.mem_order_iff, hgraph] at hid
    cases hid
  rw [hfinish]
  show OutputUnit.pack ((View.empty.replace View.wholeScript units).units t.graph.order) = _
  rw [horder, units_replace_wholeScript]

/-- A script that is run as a whole shows the units of interpretation in their order. -/
theorem load_of_whole (now : Instant) {source : Source} {script : Script}
    {units : List OutputUnit} (hsplit : s.split? source = none)
    (hparse : Script.ofSource source.text = .ok script)
    (hinterpret : script.interpret source.file s.inputs s.settings.recursionLimit = .ok units) :
    ∃ s', s.load now source = (.done (), s') ∧ s'.rows = OutputUnit.pack units := by
  obtain ⟨audience, hrun⟩ := runWhole_eq (s := s.whole source script) rfl rfl hinterpret
  refine ⟨_, by rw [load_eq_of_whole now hsplit hparse, hrun], ?_⟩
  exact rows_finish_whole now true (t := { s.whole source script with audience }) rfl
    (Graph.wellFormed_empty _ _) units

/-- The end of a run after a walk packs what the nodes show. -/
theorem rows_finish_apply (now : Instant) (force : Bool) {t : Session} {g' : Graph} {r : Report}
    (hgraph : t.graph = g') (hdistinct : t.view.Distinct) (hmentions : r.mentions.Nodup)
    (hids : ∀ id ∈ Table.keys t.view.segments, id ∈ g'.order)
    (hsub : ∀ id ∈ r.mentions, id ∈ g'.order) :
    ((t.apply r).finish now force).rows
      = OutputUnit.pack (g'.order.flatMap (r.show t.view.shown)) := by
  obtain ⟨-, hshown, hkeys⟩ := shown_apply hdistinct hmentions
  obtain ⟨audience, happly⟩ := apply_eq r t
  have hgraph' : (t.apply r).graph = g' := by rw [happly, ← hgraph]
  obtain ⟨_, _, hfinish⟩ := finish_eq now force (t.apply r)
  rw [hfinish]
  dsimp only
  rw [hgraph', View.units_eq fun id hid => (hkeys id hid).elim (hids id) (hsub id), hshown]

/-- A script that is split shows what the first walk over its graph leaves on view. -/
theorem load_of_split (now : Instant) {source : Source} {p : Program} {g g' : Graph} {r : Report}
    (hsplit : s.split? source = some (p, g)) (hexecute : g.execute none s.inputs = (some r, g'))
    (hg : g.WellFormed) (hids : ∀ id ∈ g.ids, id ∈ g'.order) :
    ∃ s', s.load now source = (.done (), s') ∧
      s'.rows = OutputUnit.pack (g'.order.flatMap (r.show fun _ => [])) := by
  obtain ⟨hmentions, hsub⟩ := Graph.nodup_mentions_of_execute hg hexecute
  have hrun := runNodes_eq (s := s.split source p g) hexecute
  refine ⟨_, by rw [load_eq_of_split now hsplit, hrun], ?_⟩
  exact rows_finish_apply now true (t := { s.split source p g with graph := g' }) rfl
    View.distinct_empty hmentions (List.forall_mem_nil _) fun id hid => hids id (hsub id hid)

/-- A session splits a script if it is to do so, and if that can be done. -/
theorem split?_eq_some {source : Source} {p : Program} {g : Graph}
    (h : s.split? source = some (p, g)) : s.settings.incremental = true ∧
      Program.ofSource source.file source.text = .ok p ∧
      p.install s.settings.recursionLimit (.ofSettings s.settings) = .ok g := by
  rw [split?] at h
  split at h
  · cases h
  · rename_i hincremental
    split at h
    · cases h
    · rename_i p' hp
      split at h
      · cases h
      · rename_i g' hg
        cases h
        exact ⟨by simpa using hincremental, hp, hg⟩

theorem split?_of_install {source : Source} {p : Program} {g : Graph}
    (hincremental : s.settings.incremental = true)
    (hsource : Program.ofSource source.file source.text = .ok p)
    (hinstall : p.install s.settings.recursionLimit (.ofSettings s.settings) = .ok g) :
    s.split? source = some (p, g) := by
  rw [split?, hincremental, hsource]
  dsimp only
  rw [hinstall]
  rfl

/-- A session splits a script by its settings. -/
theorem exists_installed_of_split? {source : Source} {p : Program} {g : Graph}
    (h : s.split? source = some (p, g)) :
    ∃ script, Script.ofSource source.text = .ok script ∧ script.SplitsInto p ∧
      p.file = source.file ∧ p.Installed s.settings.recursionLimit g ∧
      g.nodeTimeout = s.settings.nodeTimeout ∧ g.defaultRetry = s.settings.retry := by
  obtain ⟨-, hp, hg⟩ := split?_eq_some h
  obtain ⟨script, hscript, hsplits, hfile⟩ := Script.exists_splitsInto_of_ofSource hp
  have hstore := Program.sameStore_installAll hg
  exact ⟨script, hscript, hsplits, hfile, hsplits.installed (Graph.wellFormed_empty _ _) rfl hg,
    hstore.nodeTimeout_eq, hstore.defaultRetry_eq⟩

/-- The program can be installed again as it was. -/
theorem install_reset {source : Source} {p : Program} {g₀ : Graph}
    (hsplit : s.split? source = some (p, g₀)) (hlater : g₀.Later s.graph) :
    p.install s.settings.recursionLimit s.graph.reset = .ok g₀ := by
  obtain ⟨-, -, hinstall⟩ := split?_eq_some hsplit
  obtain ⟨_, -, -, -, -, htimeout, hretry⟩ := exists_installed_of_split? hsplit
  have hreset : s.graph.reset = .ofSettings s.settings := by
    rw [Graph.reset, hlater.defaultRetry_eq, hlater.nodeTimeout_eq, hretry, htimeout]
    rfl
  rw [hreset, hinstall]

/-- A run of all nodes starts with the graph into which the script is split. -/
theorem runCold_of_split {source : Source} {p : Program} {g₀ : Graph}
    (hsplit : s.split? source = some (p, g₀)) (hprogram : s.program = some p)
    (hlater : g₀.Later s.graph) :
    s.runCold = ({ s with graph := g₀, view := .empty } : Session).runNodes none := by
  rw [runCold, hprogram]
  dsimp only
  rw [install_reset hsplit hlater]

/-- A session that has not been started, with the settings that are taken if none are set. -/
def untouched : Session := .fresh ⟨"main"⟩ .standard

end Session

end ReactiveScript

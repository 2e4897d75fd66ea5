import ReactiveScript.Proofs.Session.Lifecycle
import ReactiveScript.Proofs.Session.Reruns

/-!
# The chronicle of a session

What a session has on view goes back to calls of the bodies of its nodes, which may have been made a
long time ago.  A chronicle goes through all that a session was asked for since it was created, and
keeps the calls that were made on the way.

Of what a command can do, only little is of interest here: the script is loaded or everything is
started from scratch, or neither (`Session.Prepares`), and then nodes are run, or the script as a
whole, or nothing (`Session.Does`).

* `Session.callsOf` — the calls that a command makes.
* `Session.InOrder.effect` — what a command does.
* `Session.Chronicle` — the sessions that requests lead to.
-/

set_option autoImplicit false

namespace ReactiveScript

/-- Whether a command loads the script. -/
def Command.loads : Command → Bool
  | .start _ | .restart => true
  | _ => false

namespace Session

variable {s s' t : Session} {source : Source} {calls : List Call}

/-! ## Calls -/

/-- The calls that loading a script makes. -/
def loadCalls (source : Source) (s : Session) : List Call :=
  match s.split? source with
  | some (_, g) => g.executeCalls none s.inputs
  | none => []

/-- The calls that a run of all nodes makes. -/
def coldCalls (s : Session) : List Call :=
  match s.program with
  | some p =>
    match p.install s.settings.recursionLimit s.graph.reset with
    | .ok g => g.executeCalls none s.inputs
    | .error _ => []
  | none => []

/-- The calls that running again what depends on some units makes. -/
def againCalls (changed : List UnitId) (s : Session) : List Call :=
  match s.mode with
  | .incremental =>
    let affected := s.graph.affectedBy changed
    if affected.isEmpty then s.coldCalls else s.graph.executeCalls (some affected) s.inputs
  | .fullRerun => []

/-- The calls of bodies that a command makes. -/
def callsOf (now : Instant) (c : Command) (s : Session) : List Call :=
  match c with
  | .start source => if s.state = .initial then s.loadCalls source else []
  | .rerun origin changes =>
    if s.state ≠ .running || s.isDebounced now || (s.accepted changes).isEmpty then []
    else (s.takeUp origin changes).againCalls (Table.keys (s.accepted changes))
  | .restart =>
    match s.source with
    | some source => s.loadCalls source
    | none => []
  | .stop | .introspect => []

/-! ## What commands do -/

/-- The sessions have the same script, the same graph and the same on view. -/
structure SameContent (s t : Session) : Prop where
  /-- The settings. -/
  settings_eq : t.settings = s.settings
  /-- How the session reacts to inputs. -/
  mode_eq : t.mode = s.mode
  /-- The text that was loaded. -/
  source_eq : t.source = s.source
  /-- The program that it was split into. -/
  program_eq : t.program = s.program
  /-- The graph. -/
  graph_eq : t.graph = s.graph
  /-- The view. -/
  view_eq : t.view = s.view

theorem SameContent.refl (s : Session) : s.SameContent s := ⟨rfl, rfl, rfl, rfl, rfl, rfl⟩

theorem SameContent.trans (h : s.SameContent t) (h' : t.SameContent s') : s.SameContent s' :=
  ⟨h'.settings_eq.trans h.settings_eq, h'.mode_eq.trans h.mode_eq, h'.source_eq.trans h.source_eq,
    h'.program_eq.trans h.program_eq, h'.graph_eq.trans h.graph_eq, h'.view_eq.trans h.view_eq⟩

/-- The script is loaded, or its nodes are set up anew: nothing is on view. -/
structure Reloads (s t : Session) : Prop where
  /-- The settings stay. -/
  settings_eq : t.settings = s.settings
  /-- No other script is loaded than the first one. -/
  source_eq : s.source = none ∨ t.source = s.source
  /-- Nothing is on view. -/
  view_eq : t.view = .empty
  /-- The script is split into nodes, none of which has run, or it is not split. -/
  content : (∃ source p, t.source = some source ∧ s.split? source = some (p, t.graph) ∧
      t.mode = .incremental ∧ t.program = some p) ∨
    t.graph = .ofSettings s.settings ∧ t.program = none

/-- What comes before a run: a script is loaded, or its nodes are set up anew, or neither. -/
def Prepares (s t : Session) : Prop := s.SameContent t ∨ s.Reloads t

/-- What a run that does not break off makes of a session, with the calls that it makes. -/
inductive Runs (s : Session) : List Call → Session → Prop
  /-- Nothing is run. -/
  | nothing {t : Session} : s.SameContent t → Runs s [] t
  /-- Nodes are run. -/
  | walk {recompute : Option (List NodeId)} {inputs : InputTable} {r : Report} {g' : Graph}
      {t : Session} : s.mode = .incremental → s.program ≠ none →
      s.graph.execute recompute inputs = (some r, g') →
      (({ s with graph := g' } : Session).apply r).SameContent t →
      Runs s (s.graph.executeCalls recompute inputs) t
  /-- The script is run as a whole. -/
  | whole {source : Source} {script : Script} {inputs : InputTable} {units : List OutputUnit}
      {t : Session} : s.mode = .fullRerun → s.source = some source →
      Script.ofSource source.text = .ok script →
      script.interpret source.file inputs s.settings.recursionLimit = .ok units →
      ({ s with view := View.empty.replace View.wholeScript units } : Session).SameContent t →
      Runs s [] t

/-- What a run that breaks off makes of a session, with the calls that it makes. -/
inductive BreaksOff (s : Session) : List Call → Session → Prop
  /-- Nodes were being run. -/
  | walk {recompute : Option (List NodeId)} {inputs : InputTable} {g' : Graph} {t : Session} :
      s.mode = .incremental → s.program ≠ none →
      s.graph.execute recompute inputs = (none, g') →
      ({ s with graph := g' } : Session).SameContent t →
      BreaksOff s (s.graph.executeCalls recompute inputs) t

/-- What some work on a session comes to, with the calls that it makes. -/
inductive Does (s : Session) (calls : List Call) {α : Type} (r : Reply α × Session) : Prop
  /-- It was carried out or refused, or the script failed. -/
  | runs : r.1 ≠ .crashed → s.Runs calls r.2 → Does s calls r
  /-- It broke off. -/
  | breaksOff : r.1 = .crashed → s.BreaksOff calls r.2 → Does s calls r

/-- Some work on a session comes to something once this has been prepared in a certain way. -/
def Effect (before : Session → Prop) (calls : List Call) {α : Type} (r : Reply α × Session) :
    Prop :=
  ∃ t, before t ∧ t.Does calls r

section Effects

variable {α β : Type} {r : Reply α × Session} {before before' : Session → Prop}

theorem Does.nothing (h : s.SameContent r.2) (hr : r.1 ≠ .crashed) : s.Does [] r :=
  .runs hr (.nothing h)

theorem Does.map (h : s.Does calls r) (f : α → β) : s.Does calls (r.1.map f, r.2) := by
  obtain ⟨reply, u⟩ := r
  cases h with
  | runs hr hruns =>
    refine .runs ?_ hruns
    cases reply with
    | done | refused => nofun
    | crashed => exact absurd rfl hr
  | breaksOff hr hbreaks =>
    obtain rfl : reply = .crashed := hr
    exact .breaksOff rfl hbreaks

theorem Runs.andThen (h : s.Runs calls t) (h' : t.SameContent s') : s.Runs calls s' := by
  cases h with
  | nothing hsame => exact .nothing (hsame.trans h')
  | walk hmode hprogram hexecute hsame => exact .walk hmode hprogram hexecute (hsame.trans h')
  | whole hmode hsource hparse hinterpret hsame =>
    exact .whole hmode hsource hparse hinterpret (hsame.trans h')

theorem sameContent_finish (now : Instant) (force : Bool) (s : Session) :
    s.SameContent (s.finish now force) := by
  obtain ⟨shown, audience, hfinish⟩ := finish_eq now force s
  rw [hfinish]
  exact ⟨rfl, rfl, rfl, rfl, rfl, rfl⟩

/-- The end of a run that is carried out. -/
theorem Does.finish (h : s.Does calls r) (now : Instant) (force : Bool) :
    s.Does calls (match r.1 with
      | .done a => (.done a, r.2.finish now force)
      | .refused e => (.refused e, r.2)
      | .crashed => (.crashed, r.2)) := by
  obtain ⟨reply, u⟩ := r
  cases h with
  | runs hr hruns =>
    cases reply with
    | done a => exact .runs hr (hruns.andThen (sameContent_finish now force u))
    | refused e => exact .runs hr hruns
    | crashed => exact absurd rfl hr
  | breaksOff hr hbreaks =>
    obtain rfl : reply = .crashed := hr
    exact .breaksOff rfl hbreaks

theorem Effect.map (h : Effect before calls r) (f : α → β) :
    Effect before calls (r.1.map f, r.2) := by
  obtain ⟨t, hbefore, hdoes⟩ := h
  exact ⟨t, hbefore, hdoes.map f⟩

theorem Effect.finish (h : Effect before calls r) (now : Instant) (force : Bool) :
    Effect before calls (match r.1 with
      | .done a => (.done a, r.2.finish now force)
      | .refused e => (.refused e, r.2)
      | .crashed => (.crashed, r.2)) := by
  obtain ⟨t, hbefore, hdoes⟩ := h
  exact ⟨t, hbefore, hdoes.finish now force⟩

theorem Effect.mono (h : Effect before calls r) (hbefore : ∀ t, before t → before' t) :
    Effect before' calls r := by
  obtain ⟨t, ht, hdoes⟩ := h
  exact ⟨t, hbefore t ht, hdoes⟩

theorem Effect.nothing (h : s.SameContent r.2) (hr : r.1 ≠ .crashed) : Effect s.Prepares [] r :=
  ⟨s, Or.inl (.refl s), .nothing h hr⟩

end Effects

/-- Running nodes. -/
theorem does_runNodes (hmode : s.mode = .incremental) (hprogram : s.program ≠ none)
    (recompute : Option (List NodeId)) :
    s.Does (s.graph.executeCalls recompute s.inputs) (s.runNodes recompute) := by
  rcases hexecute : s.graph.execute recompute s.inputs with ⟨_ | r, g'⟩
  · rw [runNodes, hexecute]
    exact .breaksOff rfl (.walk hmode hprogram hexecute (.refl _))
  · rw [runNodes_eq hexecute]
    exact .runs (fun hr => by cases hr) (.walk hmode hprogram hexecute (.refl _))

/-- Running a script as a whole. -/
theorem does_runWhole {script : Script} (hmode : s.mode = .fullRerun)
    (hsource : s.source = some source) (hparse : Script.ofSource source.text = .ok script)
    (hscript : s.script = some script) : s.Does [] s.runWhole := by
  obtain ⟨lines, result, hlog⟩ : ∃ lines result, script.interpretLogged source.file s.inputs
      s.settings.recursionLimit = (lines, result) := ⟨_, _, rfl⟩
  obtain ⟨audience, hannounce⟩ := announce_eq none lines s
  rw [runWhole]
  simp only [hscript, hsource, hlog, hannounce]
  cases result with
  | ok units =>
    exact .runs (fun hr => by cases hr) (.whole hmode hsource hparse (congrArg Prod.snd hlog)
      ⟨rfl, rfl, hsource.symm, rfl, rfl, rfl⟩)
  | error e =>
    refine .nothing ⟨rfl, rfl, hsource.symm, rfl, rfl, rfl⟩ ?_
    intro hcrashed
    cases hcrashed

/-- **Loading a script.** -/
theorem effect_load (now : Instant) (hsource : s.source = none ∨ some source = s.source) :
    Effect s.Reloads (s.loadCalls source) (s.load now source) := by
  rw [loadCalls]
  cases hsplit : s.split? source with
  | some pg =>
    obtain ⟨p, g⟩ := pg
    have hrun : Effect s.Reloads (g.executeCalls none s.inputs)
        ((s.split source p g).runNodes none) :=
      ⟨s.split source p g, ⟨rfl, hsource, rfl, Or.inl ⟨source, p, rfl, hsplit, rfl, rfl⟩⟩,
        does_runNodes rfl (Option.some_ne_none p) none⟩
    have hend := hrun.finish now true
    rw [load_eq_of_split now hsplit]
    generalize (s.split source p g).runNodes none = run at hend ⊢
    obtain ⟨_ | _ | _, u⟩ := run <;> exact hend
  | none =>
    cases hparse : Script.ofSource source.text with
    | error e =>
      have hsplit : ({ s.unload with source := some source } : Session).split? source = none :=
        hsplit
      rw [load, hsplit]
      dsimp only
      rw [runWholeFrom, hparse]
      refine ⟨{ s.unload with source := some source }, ⟨rfl, hsource, rfl, Or.inr ⟨rfl, rfl⟩⟩,
        .nothing ?_ ?_⟩
      · exact ⟨rfl, rfl, rfl, rfl, rfl, rfl⟩
      · intro hcrashed
        cases hcrashed
    | ok script =>
      have hrun : Effect s.Reloads [] (s.whole source script).runWhole :=
        ⟨s.whole source script, ⟨rfl, hsource, rfl, Or.inr ⟨rfl, rfl⟩⟩,
          does_runWhole rfl rfl hparse rfl⟩
      have hend := hrun.finish now true
      rw [load_eq_of_whole now hsplit hparse]
      generalize (s.whole source script).runWhole = run at hend ⊢
      obtain ⟨_ | _ | _, u⟩ := run <;> exact hend

/-- **Running a loaded script again.** -/
theorem Loaded.effect_runAgain (h : s.Loaded) (changed : List UnitId) :
    Effect s.Prepares (s.againCalls changed) (s.runAgain changed) := by
  cases h with
  | @split source p g₀ hmode hsource hsplit hprogram hlater =>
    have hsome : s.program ≠ none := by simp [hprogram]
    rw [againCalls, hmode]
    dsimp only
    split
    · rename_i hempty
      rw [runAgain_of_unaffected hmode (List.isEmpty_iff.1 hempty), coldCalls, hprogram]
      dsimp only
      rw [install_reset hsplit hlater, runCold_of_split hsplit hprogram hlater]
      let t : Session := { s with graph := g₀, view := .empty }
      have hdoes : t.Does (g₀.executeCalls none s.inputs) (t.runNodes none) :=
        does_runNodes (s := t) hmode hsome none
      refine Effect.map ⟨t, Or.inr ⟨rfl, Or.inr rfl, rfl, Or.inl ?_⟩, hdoes⟩ _
      exact ⟨source, p, hsource, hsplit, hmode, hprogram⟩
    · rename_i hsomeAffected
      rw [runAgain_of_affected hmode (mt List.isEmpty_iff.2 hsomeAffected)]
      exact Effect.map ⟨s, Or.inl (.refl s), does_runNodes hmode hsome _⟩ _
  | @whole source script hmode hsource hparse hscript =>
    rw [againCalls, Session.runAgain, hmode]
    exact Effect.map ⟨s, Or.inl (.refl s), does_runWhole hmode hsource hparse hscript⟩ _

theorem sameContent_takeUp (origin : Option ObserverId) (changes : Table UnitId Value)
    (s : Session) : s.SameContent (s.takeUp origin changes) := by
  obtain ⟨memo, inputs, audience, htake, -⟩ := takeUp_eq origin changes s
  rw [htake]
  exact ⟨rfl, rfl, rfl, rfl, rfl, rfl⟩

theorem Prepares.after (h : t.Prepares s') (hsame : s.SameContent t) : s.Prepares s' := by
  rcases h with h | h
  · exact Or.inl (hsame.trans h)
  · obtain ⟨hsettings, hsource, hview, hcontent⟩ := h
    rw [hsame.source_eq] at hsource
    rw [hsame.settings_eq] at hsettings hcontent
    simp only [split?_congr hsame.settings_eq] at hcontent
    exact Or.inr ⟨hsettings, hsource, hview, hcontent⟩

/-- Reacting to changes. -/
theorem InOrder.effect_rerun (h : s.InOrder) (now : Instant) (origin : Option ObserverId)
    (changes : Table UnitId Value) :
    Effect s.Prepares (s.callsOf now (.rerun origin changes)) (s.rerun now origin changes) := by
  by_cases hrunning : s.state = .running
  · cases hdebounced : s.isDebounced now with
    | true =>
      have hcalls : s.callsOf now (.rerun origin changes) = [] := by simp [callsOf, hdebounced]
      rw [hcalls, rerun, if_neg (not_not_intro hrunning), if_pos hdebounced]
      exact .nothing (.refl s) fun hr => by cases hr
    | false =>
      by_cases haccepted : s.accepted changes = []
      · have hcalls : s.callsOf now (.rerun origin changes) = [] := by simp [callsOf, haccepted]
        rw [hcalls, rerun_of_not_accepted hrunning hdebounced haccepted]
        exact .nothing (.refl s) fun hr => by cases hr
      · have hcalls : s.callsOf now (.rerun origin changes)
            = (s.takeUp origin changes).againCalls (Table.keys (s.accepted changes)) := by
          simp [callsOf, hrunning, hdebounced, haccepted]
        have hsame := sameContent_takeUp origin changes s
        obtain ⟨memo, inputs, audience, htake, -⟩ := takeUp_eq origin changes s
        have hloaded : (s.takeUp origin changes).Loaded := by
          rw [htake]
          exact (h.loaded hrunning).keep rfl rfl rfl rfl rfl (.refl _)
        have hagain := ((hloaded.effect_runAgain (Table.keys (s.accepted changes))).mono
          fun t ht => ht.after hsame).finish now false
        rw [hcalls, rerun_eq hrunning hdebounced haccepted]
        dsimp only
        generalize (s.takeUp origin changes).runAgain (Table.keys (s.accepted changes)) = run
          at hagain ⊢
        obtain ⟨_ | _ | _, u⟩ := run <;> exact hagain
  · have hcalls : s.callsOf now (.rerun origin changes) = [] := by simp [callsOf, hrunning]
    rw [hcalls, rerun, if_pos hrunning]
    exact .nothing (.refl s) fun hr => by cases hr

/-- A command that loads the script does so, or is refused. -/
theorem InOrder.perform_of_loads (h : s.InOrder) (now : Instant) {c : Command}
    (hloads : c.loads = true) :
    (∃ source, (s.source = none ∨ some source = s.source) ∧ s.callsOf now c = s.loadCalls source ∧
      s.perform now c = ((s.load now source).1.map fun _ => .done, (s.load now source).2)) ∨
    (s.callsOf now c = [] ∧ ∃ e, s.perform now c = (.refused e, s)) := by
  cases c with
  | start source =>
    by_cases hinitial : s.state = .initial
    · exact Or.inl ⟨source, Or.inl (h.source_eq_none.2 hinitial), if_pos hinitial,
        perform_start hinitial now source⟩
    · refine Or.inr ⟨if_neg hinitial, .alreadyStarted, ?_⟩
      rw [Session.perform, start, if_neg hinitial]
      rfl
  | restart =>
    cases hsource : s.source with
    | some source =>
      refine Or.inl ⟨source, Or.inr rfl, by rw [callsOf, hsource], ?_⟩
      rw [Session.perform, restart, hsource]
    | none =>
      refine Or.inr ⟨by rw [callsOf, hsource], .noScript, ?_⟩
      rw [Session.perform, restart, hsource]
      rfl
  | rerun | stop | introspect => cases hloads

/-- A command that has loaded the script has begun with that. -/
theorem InOrder.effect_of_loads (h : s.InOrder) {now : Instant} {c : Command}
    (hloads : c.loads = true) (hdone : (s.perform now c).1 = .done .done) :
    Effect s.Reloads (s.callsOf now c) (s.perform now c) := by
  rcases h.perform_of_loads now hloads with ⟨source, hsource, hcalls, hperform⟩ | ⟨-, e, hperform⟩
  · rw [hcalls, hperform]
    exact (effect_load now hsource).map _
  · rw [hperform] at hdone
    cases hdone

/-- **What carrying out a command does.** -/
theorem InOrder.effect (h : s.InOrder) (now : Instant) (c : Command) :
    Effect s.Prepares (s.callsOf now c) (s.perform now c) := by
  cases hloads : c.loads with
  | true =>
    rcases h.perform_of_loads now hloads with
      ⟨source, hsource, hcalls, hperform⟩ | ⟨hcalls, e, hperform⟩
    · rw [hcalls, hperform]
      exact ((effect_load now hsource).mono fun t ht => Or.inr ht).map _
    · rw [hcalls, hperform]
      exact .nothing (.refl s) fun hr => by cases hr
  | false =>
    cases c with
    | start | restart => cases hloads
    | rerun origin changes => exact (h.effect_rerun now origin changes).map _
    | stop =>
      show Effect s.Prepares [] (s.stop.1.map _, s.stop.2)
      rw [stop]
      split
      · exact .nothing ⟨rfl, rfl, rfl, rfl, rfl, rfl⟩ fun hr => by cases hr
      · exact .nothing (.refl s) fun hr => by cases hr
    | introspect => exact .nothing (.refl s) fun hr => by cases hr

/-! ## Chronicles -/

/-- Whether a walk over the graph has broken off since the script was loaded, after one more
command. -/
def breaks (broken : Bool) (c : Command) : Reply Answer → Bool
  | .crashed => true
  | .done .done => broken && !c.loads
  | _ => broken

/-- The sessions that requests lead to, with all calls of bodies that were made on the way, and
whether a walk over the graph has broken off since the script was loaded. -/
inductive Chronicle (id : SessionId) (settings : Settings) : List Call → Bool → Session → Prop
  /-- A session that has not been started. -/
  | fresh : Chronicle id settings [] false (.fresh id settings)
  /-- An observer is attached. -/
  | attach {calls : List Call} {broken : Bool} {s : Session} (accepts : Nat → Bool) :
      Chronicle id settings calls broken s →
      Chronicle id settings calls broken (s.attach accepts).2
  /-- An observer is detached. -/
  | detach {calls : List Call} {broken : Bool} {s : Session} (observer : ObserverId) :
      Chronicle id settings calls broken s →
      Chronicle id settings calls broken (s.detach observer).2
  /-- The line to an observer breaks down. -/
  | hangUp {calls : List Call} {broken : Bool} {s : Session} (observer : ObserverId) :
      Chronicle id settings calls broken s →
      Chronicle id settings calls broken (s.hangUp observer)
  /-- The graph is published. -/
  | publish {calls : List Call} {broken : Bool} {s : Session} :
      Chronicle id settings calls broken s → Chronicle id settings calls broken s.publish
  /-- A command is carried out, refused, or breaks off. -/
  | perform {calls : List Call} {broken : Bool} {s : Session} (now : Instant) (c : Command) :
      Chronicle id settings calls broken s →
      Chronicle id settings (calls ++ s.callsOf now c) (breaks broken c (s.perform now c).1)
        (s.perform now c).2

/-- A command leaves a session in order, even if the work on it breaks off. -/
theorem InOrder.perform (h : s.InOrder) (now : Instant) (c : Command) :
    (s.perform now c).2.InOrder := by
  have hcarried := h.carried now c
  generalize s.perform now c = r at hcarried
  cases hcarried with
  | idle => exact h
  | ran _ hran => exact hran.inOrder
  | stopped _ hrunning =>
    refine ⟨?_, nofun⟩
    rw [h.source_eq_none, hrunning]
    exact ⟨nofun, nofun⟩

/-- **A property of sessions and the calls that led to them** holds for all of them if it holds at
first, depends on nothing but the content, and is kept by every command. -/
theorem Chronicle.induct {id : SessionId} {settings : Settings} {broken : Bool}
    {P : List Call → Bool → Session → Prop} (h : Chronicle id settings calls broken s)
    (hfresh : P [] false (.fresh id settings))
    (hsame : ∀ {calls broken s t}, P calls broken s → s.SameContent t → P calls broken t)
    (hperform : ∀ {calls broken s} now c, Chronicle id settings calls broken s → s.InOrder →
      P calls broken s →
      P (calls ++ s.callsOf now c) (breaks broken c (s.perform now c).1) (s.perform now c).2) :
    s.InOrder ∧ P calls broken s := by
  have hkeep : ∀ {s s' : Session}, s.InOrder → s'.state = s.state → s'.source = s.source →
      (s.Loaded → s'.Loaded) → s'.InOrder := fun h hstate hsource hloaded =>
    ⟨by rw [hstate, hsource]; exact h.source_eq_none, fun hrunning =>
      hloaded (h.loaded (hstate.symm.trans hrunning))⟩
  induction h with
  | fresh => exact ⟨inOrder_fresh id settings, hfresh⟩
  | attach | detach | hangUp | publish =>
    rename_i ih
    exact ⟨hkeep ih.1 rfl rfl fun hloaded => hloaded.keep rfl rfl rfl rfl rfl (.refl _),
      hsame ih.2 ⟨rfl, rfl, rfl, rfl, rfl, rfl⟩⟩
  | perform now c h ih => exact ⟨ih.1.perform now c, hperform now c h ih.1 ih.2⟩

end Session

end ReactiveScript

import ReactiveScript.Proofs.Session.Load
import ReactiveScript.Proofs.Session.Observers
import ReactiveScript.Session.Command

/-!
# The life of a session

A session goes from initial to running when it is started, and from running to stopped when it is
stopped; a restart leads back to running from wherever a script has been loaded.  A script that fails
leads to the error state, and everybody is told once.  While the session is running, the script is at
hand in the form in which it is run, so that a rerun always has something to run.  A command that is
refused, or has nothing to do, leaves everything as it was.

* `Session.Loaded` — the script is at hand in the form in which it is run.
* `Session.Tells` — which failures a session tells its observers of on the way to another one.
* `Session.Ran` — what a run of a loaded script comes to; every run is one (`Loaded.runAgain`).
* `Session.Moves` — the transitions of the state.
* `Session.commands_move_the_state` — the theorem.
-/

set_option autoImplicit false

namespace ReactiveScript

/-- Whether a message says that the script failed. -/
def Message.isFailure : Message → Bool
  | .failure _ => true
  | _ => false

/-- An audience after some messages went out one after another, each to everybody but one. -/
def Audience.broadcastAll (a : Audience) (ms : List (Option ObserverId × Message)) : Audience :=
  ms.foldl (fun a m => a.broadcast m.1 m.2) a

namespace Session

variable {s s' t : Session} {source : Source}

/-! ## What observers are told of -/

/-- On the way from one session to another, failures have been announced to everybody, one after
another, among other messages. -/
def Tells (s s' : Session) (notices : List Notice) : Prop :=
  ∃ ms, s'.audience = s.audience.broadcastAll ms ∧
    ms.filter (fun m => m.2.isFailure) = notices.map fun n => (none, .failure n)

namespace Tells

theorem of_audience_eq (h : s'.audience = s.audience) : s.Tells s' [] := ⟨[], h, rfl⟩

theorem trans {notices notices' : List Notice} (h : s.Tells t notices) (h' : t.Tells s' notices') :
    s.Tells s' (notices ++ notices') := by
  obtain ⟨ms, haudience, hfilter⟩ := h
  obtain ⟨ms', haudience', hfilter'⟩ := h'
  refine ⟨ms ++ ms', ?_, ?_⟩
  · rw [haudience', haudience, Audience.broadcastAll, Audience.broadcastAll, ← List.foldl_append]
    rfl
  · rw [List.filter_append, hfilter, hfilter', List.map_append]

theorem after_none {notices : List Notice} (h : s.Tells t []) (h' : t.Tells s' notices) :
    s.Tells s' notices := h.trans h'

theorem broadcast (skip : Option ObserverId) {m : Message} (hm : m.isFailure = false)
    (s : Session) : s.Tells (s.broadcast skip m) [] :=
  ⟨[(skip, m)], rfl, by simp [hm]⟩

theorem announce (node : Option NodeId) (lines : List String) (s : Session) :
    s.Tells (s.announce node lines) [] := by
  induction lines generalizing s with
  | nil => exact of_audience_eq rfl
  | cons line lines ih => exact (broadcast none rfl s).trans (ih _)

theorem announceAll (printed : List (NodeId × List String)) (s : Session) :
    s.Tells (printed.foldl (fun s (node, lines) => s.announce (some node) lines) s) [] := by
  induction printed generalizing s with
  | nil => exact of_audience_eq rfl
  | cons e printed ih => exact (announce (some e.1) e.2 s).trans (ih _)

theorem apply (r : Report) (s : Session) : s.Tells (s.apply r) [] :=
  (announceAll r.printed s).trans (of_audience_eq rfl)

theorem store (origin : Option ObserverId) (changes : Table UnitId Value) (s : Session) :
    s.Tells (changes.foldl (Session.store origin) s) [] := by
  induction changes generalizing s with
  | nil => exact of_audience_eq rfl
  | cons change changes ih =>
    refine after_none ?_ (ih _)
    exact broadcast origin rfl { s with inputs := Table.put change.1 change.2 s.inputs }

theorem takeUp (origin : Option ObserverId) (changes : Table UnitId Value) (s : Session) :
    s.Tells (s.takeUp origin changes) [] := by
  refine after_none ?_ (store origin (s.accepted changes) _)
  exact of_audience_eq rfl

theorem finish (now : Instant) (force : Bool) (s : Session) : s.Tells (s.finish now force) [] := by
  rw [Session.finish]
  dsimp only
  split
  · exact of_audience_eq rfl
  · refine after_none ?_ (broadcast none rfl _)
    exact of_audience_eq rfl

theorem fail {α : Type} (e : ScriptError) (s : Session) :
    s.Tells (s.fail (α := α) e).2 [e.notice] := ⟨[(none, .failure e.notice)], rfl, rfl⟩

end Tells

/-! ## Loaded scripts -/

/-- The script is at hand in the form in which the session runs it. -/
inductive Loaded (s : Session) : Prop
  /-- The program is installed: its nodes have been in the graph since it was loaded. -/
  | split {source : Source} {p : Program} {g₀ : Graph} : s.mode = .incremental →
      s.source = some source → s.split? source = some (p, g₀) → s.program = some p →
      g₀.Later s.graph → Loaded s
  /-- The script has been read. -/
  | whole {source : Source} {script : Script} : s.mode = .fullRerun →
      s.source = some source → Script.ofSource source.text = .ok script →
      s.script = some script → Loaded s

theorem split?_congr (h : s'.settings = s.settings) (source : Source) :
    s'.split? source = s.split? source := by
  rw [split?, split?, h]

theorem Loaded.keep (h : s.Loaded) (hsettings : s'.settings = s.settings) (hmode : s'.mode = s.mode)
    (hsource : s'.source = s.source) (hprogram : s'.program = s.program)
    (hscript : s'.script = s.script) (hgraph : s.graph.Later s'.graph) : s'.Loaded := by
  cases h with
  | split hm hs hsplit hp hlater =>
    exact .split (hmode.trans hm) (hsource.trans hs) ((split?_congr hsettings _).trans hsplit)
      (hprogram.trans hp) (hlater.trans hgraph)
  | whole hm hs hparse hw =>
    exact .whole (hmode.trans hm) (hsource.trans hs) hparse (hscript.trans hw)

/-! ## Runs -/

/-- What a run of a loaded script comes to, when so many runs have come to their end by then: it came
through, or the script failed and everybody was told, or it broke off. -/
inductive Ran (s : Session) (source : Source) (ended : Nat) {α : Type} : Reply α × Session → Prop
  /-- It came through. -/
  | done {a : α} {t : Session} : t.settings = s.settings → t.source = some source →
      t.state = .running → t.Loaded → t.runs = s.runs + ended → s.Tells t [] →
      Ran s source ended (.done a, t)
  /-- The script failed. -/
  | failed {e : ScriptError} {t : Session} : t.settings = s.settings → t.source = some source →
      t.state = .error → t.runs = s.runs → s.Tells t [e.notice] →
      Ran s source ended (.refused (.script e), t)
  /-- It broke off. -/
  | crashed {t : Session} : t.settings = s.settings → t.source = some source →
      t.state = .running → t.Loaded → Ran s source ended (.crashed, t)

namespace Ran

variable {α β : Type} {ended : Nat} {r : Reply α × Session}

/-- What was done to the session before the run does not matter if observers were told of no
failure. -/
theorem after (h : Ran t source ended r) (hsettings : t.settings = s.settings)
    (hruns : t.runs = s.runs) (htells : s.Tells t []) : Ran s source ended r := by
  cases h with
  | done h₁ h₂ h₃ h₄ h₅ h₆ =>
    exact .done (h₁.trans hsettings) h₂ h₃ h₄ (by rw [h₅, hruns]) (htells.trans h₆)
  | failed h₁ h₂ h₃ h₄ h₅ =>
    exact .failed (h₁.trans hsettings) h₂ h₃ (h₄.trans hruns) (htells.trans h₅)
  | crashed h₁ h₂ h₃ h₄ => exact .crashed (h₁.trans hsettings) h₂ h₃ h₄

theorem map (h : Ran s source ended r) (f : α → β) : Ran s source ended (r.1.map f, r.2) := by
  cases h with
  | done h₁ h₂ h₃ h₄ h₅ h₆ => exact .done h₁ h₂ h₃ h₄ h₅ h₆
  | failed h₁ h₂ h₃ h₄ h₅ => exact .failed h₁ h₂ h₃ h₄ h₅
  | crashed h₁ h₂ h₃ h₄ => exact .crashed h₁ h₂ h₃ h₄

/-- The end of a run that came through. -/
theorem finish (h : Ran s source 0 r) (now : Instant) (force : Bool) :
    Ran s source 1 (match r.1 with
      | .done a => (.done a, r.2.finish now force)
      | .refused e => (.refused e, r.2)
      | .crashed => (.crashed, r.2)) := by
  cases h with
  | @done a t h₁ h₂ h₃ h₄ h₅ h₆ =>
    obtain ⟨shown, audience, hfinish⟩ := finish_eq now force t
    have htells := h₆.trans (Tells.finish now force t)
    dsimp only
    rw [hfinish] at htells ⊢
    exact .done h₁ h₂ h₃ (h₄.keep rfl rfl rfl rfl rfl (.refl _)) (congrArg (· + 1) h₅) htells
  | failed h₁ h₂ h₃ h₄ h₅ => exact .failed h₁ h₂ h₃ h₄ h₅
  | crashed h₁ h₂ h₃ h₄ => exact .crashed h₁ h₂ h₃ h₄

end Ran

/-- Running nodes of a loaded program. -/
theorem Loaded.runNodes (h : s.Loaded) (hrunning : s.state = .running)
    (hsource : s.source = some source) (recompute : Option (List NodeId)) :
    Ran s source 0 (s.runNodes recompute) := by
  rw [Session.runNodes]
  split
  · rename_i r g hexecute
    have hgraph : s.Tells { s with graph := g } [] := .of_audience_eq rfl
    have htells : s.Tells (({ s with graph := g } : Session).apply r) [] := hgraph.trans (.apply r _)
    obtain ⟨audience, happly⟩ := apply_eq r { s with graph := g }
    rw [happly] at htells ⊢
    exact .done rfl hsource hrunning
      (h.keep rfl rfl rfl rfl rfl (Graph.later_execute hexecute)) rfl htells
  · rename_i g hexecute
    exact .crashed rfl hsource hrunning
      (h.keep rfl rfl rfl rfl rfl (Graph.later_execute hexecute))

/-- Running a script that has been read. -/
theorem ran_runWhole {script : Script} (hmode : s.mode = .fullRerun) (hrunning : s.state = .running)
    (hsource : s.source = some source) (hparse : Script.ofSource source.text = .ok script)
    (hscript : s.script = some script) : Ran s source 0 s.runWhole := by
  obtain ⟨lines, result, hlog⟩ : ∃ lines result, script.interpretLogged source.file s.inputs
      s.settings.recursionLimit = (lines, result) := ⟨_, _, rfl⟩
  have htells := Tells.announce none lines s
  obtain ⟨audience, hannounce⟩ := announce_eq none lines s
  rw [runWhole]
  simp only [hscript, hsource, hlog]
  rw [hannounce] at htells ⊢
  cases result with
  | ok units =>
    exact .done rfl hsource hrunning (.whole hmode hsource hparse hscript) rfl htells
  | error e => exact .failed rfl hsource rfl rfl (htells.trans (.fail (α := Unit) e _))

/-- Running the whole program of a loaded script again: it can be installed as it was. -/
theorem ran_runCold {p : Program} {g₀ : Graph} (hmode : s.mode = .incremental)
    (hrunning : s.state = .running) (hsource : s.source = some source)
    (hsplit : s.split? source = some (p, g₀)) (hprogram : s.program = some p)
    (hlater : g₀.Later s.graph) : Ran s source 0 s.runCold := by
  let u : Session := { s with graph := g₀, view := .empty }
  have hloaded : u.Loaded := .split hmode hsource hsplit hprogram (.refl g₀)
  rw [runCold_of_split hsplit hprogram hlater]
  exact (hloaded.runNodes hrunning hsource none).after rfl rfl (.of_audience_eq rfl)

/-- **A run of a loaded script comes through, or the script fails and everybody is told, or it breaks
off.**  It never has nothing to run. -/
theorem Loaded.runAgain (h : s.Loaded) (hrunning : s.state = .running) (changed : List UnitId) :
    ∃ source, s.source = some source ∧ Ran s source 0 (s.runAgain changed) := by
  rw [Session.runAgain]
  have hloaded := h
  cases h with
  | @split source p g₀ hmode hsource hsplit hprogram hlater =>
    refine ⟨source, hsource, ?_⟩
    rw [hmode]
    dsimp only
    rw [runAffected]
    dsimp only
    split
    · exact (ran_runCold hmode hrunning hsource hsplit hprogram hlater).map _
    · exact (hloaded.runNodes hrunning hsource _).map _
  | @whole source script hmode hsource hparse hscript =>
    refine ⟨source, hsource, ?_⟩
    rw [hmode]
    exact (ran_runWhole hmode hrunning hsource hparse hscript).map _

/-- Loading a script is a run of it, whether or not it could be read. -/
theorem ran_load (now : Instant) (source : Source) (s : Session) :
    Ran s source 1 (s.load now source) := by
  cases hsplit : s.split? source with
  | some pg =>
    obtain ⟨p, g⟩ := pg
    have hloaded : (s.split source p g).Loaded := .split rfl rfl hsplit rfl (.refl g)
    have hrun : Ran s source 0 ((s.split source p g).runNodes none) :=
      (hloaded.runNodes rfl rfl none).after rfl rfl (.of_audience_eq rfl)
    have hend := hrun.finish now true
    rw [load_eq_of_split now hsplit]
    generalize (s.split source p g).runNodes none = run at hend ⊢
    obtain ⟨_ | _ | _, t⟩ := run <;> exact hend
  | none =>
    cases hparse : Script.ofSource source.text with
    | error e =>
      have hsplit : ({ s.unload with source := some source } : Session).split? source = none :=
        hsplit
      rw [Session.load, hsplit]
      dsimp only
      rw [runWholeFrom, hparse]
      exact .failed rfl rfl rfl rfl (.fail (α := Unit) (.parse e) s)
    | ok script =>
      have hrun : Ran s source 0 (s.whole source script).runWhole :=
        (ran_runWhole (s := s.whole source script) rfl rfl rfl hparse rfl).after rfl rfl
          (.of_audience_eq rfl)
      have hend := hrun.finish now true
      rw [load_eq_of_whole now hsplit hparse]
      generalize (s.whole source script).runWhole = run at hend ⊢
      obtain ⟨_ | _ | _, t⟩ := run <;> exact hend

/-- A rerun that takes up changes is a run. -/
theorem Loaded.rerun (h : s.Loaded) (hrunning : s.state = .running) (now : Instant)
    (origin : Option ObserverId) (changes : Table UnitId Value)
    (hdebounced : s.isDebounced now = false) (haccepted : s.accepted changes ≠ []) :
    ∃ source, s.source = some source ∧ Ran s source 1 (s.rerun now origin changes) := by
  obtain ⟨memo, inputs, audience, htake, -⟩ := takeUp_eq origin changes s
  have htells := Tells.takeUp origin changes s
  rw [rerun_eq hrunning hdebounced haccepted]
  rw [htake] at htells ⊢
  let t : Session := { s with inputMemo := memo, inputs, audience }
  have hloaded : t.Loaded := h.keep rfl rfl rfl rfl rfl (.refl _)
  obtain ⟨source, hsource, hrun⟩ :=
    hloaded.runAgain hrunning (Table.keys (s.accepted changes))
  refine ⟨source, hsource, ?_⟩
  have hend := (hrun.after (s := s) rfl rfl htells).finish now false
  dsimp only
  generalize t.runAgain (Table.keys (s.accepted changes)) = run at hend ⊢
  obtain ⟨_ | _ | _, u⟩ := run <;> exact hend

/-! ## Invariants -/

/-- A script has been loaded unless the session is initial, and is at hand while it is running. -/
structure InOrder (s : Session) : Prop where
  /-- A script has been loaded unless the session is initial. -/
  source_eq_none : s.source = none ↔ s.state = .initial
  /-- The script is at hand. -/
  loaded : s.state = .running → s.Loaded

theorem inOrder_fresh (id : SessionId) (settings : Settings) : (fresh id settings).InOrder :=
  ⟨⟨fun _ => rfl, fun _ => rfl⟩, fun hrunning => (by cases hrunning)⟩

theorem Ran.inOrder {α : Type} {ended : Nat} {r : Reply α × Session}
    (h : Ran s source ended r) : r.2.InOrder := by
  have hsome : ∀ t : Session, t.source = some source → t.state ≠ .initial →
      (t.source = none ↔ t.state = .initial) := fun t hsource hstate => by
    simp [hsource, hstate]
  cases h with
  | done _ hsource hstate hloaded => exact ⟨hsome _ hsource (by simp [hstate]), fun _ => hloaded⟩
  | failed _ hsource hstate =>
    refine ⟨hsome _ hsource (by simp [hstate]), fun hrunning => ?_⟩
    cases hstate.symm.trans hrunning
  | crashed _ hsource hstate hloaded => exact ⟨hsome _ hsource (by simp [hstate]), fun _ => hloaded⟩

/-- A rerun is refused, or has nothing to do, or is a run. -/
theorem InOrder.rerun_cases (h : s.InOrder) (now : Instant) (origin : Option ObserverId)
    (changes : Table UnitId Value) :
    (s.state ≠ .running ∧ s.rerun now origin changes = (.refused (.notRunning s.state), s)) ∨
      s.state = .running ∧ (s.rerun now origin changes = (.done .debounced, s) ∨
        s.rerun now origin changes = (.done .unchanged, s) ∨
        (∃ source, Ran s source 1 (s.rerun now origin changes)) ∧
          ∀ outcome, (s.rerun now origin changes).1 = .done outcome →
            outcome = .fullRerun ∨ ∃ affected, outcome = .incremental affected) := by
  by_cases hrunning : s.state = .running
  · refine Or.inr ⟨hrunning, ?_⟩
    cases hdebounced : s.isDebounced now with
    | true =>
      left
      rw [rerun, if_neg (not_not_intro hrunning), if_pos hdebounced]
    | false =>
      right
      by_cases haccepted : s.accepted changes = []
      · exact Or.inl (rerun_of_not_accepted hrunning hdebounced haccepted)
      · right
        obtain ⟨source, -, hran⟩ :=
          (h.loaded hrunning).rerun hrunning now origin changes hdebounced haccepted
        exact ⟨⟨source, hran⟩, fun _ => outcome_of_done_rerun hrunning hdebounced haccepted⟩
  · exact Or.inl ⟨hrunning, by rw [rerun, if_pos hrunning]⟩

/-- Requests keep a session in order. -/
theorem Reached.inOrder {id : SessionId} {settings : Settings} (h : Reached id settings s) :
    s.InOrder := by
  have hkeep : ∀ s s' : Session, s.InOrder → s'.state = s.state → s'.source = s.source →
      (s.Loaded → s'.Loaded) → s'.InOrder := fun s s' h hstate hsource hloaded =>
    ⟨by rw [hstate, hsource]; exact h.source_eq_none, fun hrunning =>
      hloaded (h.loaded (hstate.symm.trans hrunning))⟩
  induction h with
  | fresh => exact inOrder_fresh id settings
  | attach | detach | hangUp | publish =>
    rename_i ih
    exact hkeep _ _ ih rfl rfl fun hloaded => hloaded.keep rfl rfl rfl rfl rfl (.refl _)
  | start now source _ _ ih =>
    rw [Session.start]
    split
    · exact (ran_load now source _).inOrder
    · exact ih
  | restart now _ _ ih =>
    rw [Session.restart]
    split
    · exact (ran_load now _ _).inOrder
    · exact ih
  | stop _ ih =>
    rw [Session.stop]
    split
    · rename_i hrunning
      refine ⟨?_, fun hrunning => (by cases hrunning)⟩
      rw [ih.source_eq_none, hrunning]
      exact ⟨fun hinitial => (by cases hinitial), fun hinitial => (by cases hinitial)⟩
    · exact ih
  | rerun now origin changes _ ih =>
    rcases ih.rerun_cases now origin changes with ⟨-, heq⟩ | ⟨-, heq | heq | ⟨⟨source, hran⟩, -⟩⟩
    · rw [heq]
      exact ih
    · rw [heq]
      exact ih
    · rw [heq]
      exact ih
    · exact hran.inOrder

/-! ## Commands -/

/-- Starting a session that has not been started loads the script. -/
theorem perform_start (hinitial : s.state = .initial) (now : Instant) (source : Source) :
    s.perform now (.start source)
      = ((s.load now source).1.map fun _ => .done, (s.load now source).2) := by
  rw [perform, start, if_pos hinitial]

/-- Starting a session with the script of the box runs all nodes. -/
theorem perform_start_tick {g : Graph} (hinitial : s.state = .initial)
    (hsplit : s.split? tickSource = some (tickProgram, g))
    (hdone : (s.beforeTick g).1.settle.toOption.isSome) :
    s.perform ⟨0⟩ (.start tickSource) = (.done .done, s.boxed g) := by
  rw [perform_start hinitial, load_eq_boxed hsplit hdone]
  rfl

/-- The reply says that nothing was done. -/
inductive Idle : Reply Answer → Prop
  /-- The session is not running. -/
  | notRunning (state : RunState) : Idle (.refused (.notRunning state))
  /-- It has been started before. -/
  | alreadyStarted : Idle (.refused .alreadyStarted)
  /-- There is no script to run. -/
  | noScript : Idle (.refused .noScript)
  /-- The last run was too recent. -/
  | debounced : Idle (.done (.rerun .debounced))
  /-- No input had changed. -/
  | unchanged : Idle (.done (.rerun .unchanged))
  /-- The graph was shown. -/
  | shown (r : GraphReport) : Idle (.done (.graph r))

/-- The states in which a command runs the script. -/
inductive Launches : Command → RunState → Prop
  /-- A session that has not been started. -/
  | start (source : Source) : Launches (.start source) .initial
  /-- A session that reacts to inputs. -/
  | rerun (origin : Option ObserverId) (changes : Table UnitId Value) :
      Launches (.rerun origin changes) .running
  /-- A session into which a script has been loaded. -/
  | restart {state : RunState} : state ≠ .initial → Launches .restart state

/-- The transitions of the state. -/
inductive Moves : Command → RunState → RunState → Prop
  /-- The script was run. -/
  | run {c : Command} {before : RunState} : Launches c before → Moves c before .running
  /-- The script failed. -/
  | fail {c : Command} {before : RunState} : Launches c before → Moves c before .error
  /-- The session was stopped. -/
  | stop : Moves .stop .running .stopped

/-- The reply says that a run has come to its end. -/
inductive EndsRun : Command → Reply Answer → Prop
  /-- The script was loaded. -/
  | start (source : Source) : EndsRun (.start source) (.done .done)
  /-- The script was loaded again. -/
  | restart : EndsRun .restart (.done .done)
  /-- The nodes that are affected were run. -/
  | incremental (origin : Option ObserverId) (changes : Table UnitId Value)
      (affected : List NodeId) :
      EndsRun (.rerun origin changes) (.done (.rerun (.incremental affected)))
  /-- The whole script was run. -/
  | fullRerun (origin : Option ObserverId) (changes : Table UnitId Value) :
      EndsRun (.rerun origin changes) (.done (.rerun .fullRerun))

/-- What carrying out a command comes to. -/
inductive Carried (s : Session) (c : Command) : Reply Answer × Session → Prop
  /-- Nothing was done. -/
  | idle {reply : Reply Answer} : Idle reply →
      (reply = .refused .noScript → c = .restart ∧ s.state = .initial) → Carried s c (reply, s)
  /-- The script was run. -/
  | ran {source : Source} {r : Reply Answer × Session} : Launches c s.state → Ran s source 1 r →
      (∀ a, r.1 = .done a → EndsRun c r.1) → Carried s c r
  /-- The session was stopped. -/
  | stopped : c = .stop → s.state = .running → Carried s c (.done .done, { s with state := .stopped })

/-- **Carrying out a command does nothing, runs the script, or stops the session.** -/
theorem InOrder.carried (h : s.InOrder) (now : Instant) (c : Command) :
    Carried s c (s.perform now c) := by
  have hdone : ∀ {r : Reply Unit} {a : Answer}, (r.map fun _ => Answer.done) = .done a →
      (r.map fun _ => Answer.done) = .done .done := by
    rintro (⟨⟩ | _ | _) a ha
    · rfl
    · cases ha
    · cases ha
  cases c with
  | start source =>
    show Carried s _ ((s.start now source).1.map _, (s.start now source).2)
    rw [Session.start]
    split
    · rename_i hinitial
      refine .ran (hinitial ▸ .start source) ((ran_load now source s).map _) fun a ha => ?_
      rw [hdone ha]
      exact .start source
    · exact .idle .alreadyStarted fun hnone => by cases hnone
  | rerun origin changes =>
    rw [Session.perform]
    rcases h.rerun_cases now origin changes with
      ⟨-, heq⟩ | ⟨hrunning, heq | heq | ⟨⟨source, hran⟩, houtcome⟩⟩
    · rw [heq]
      exact .idle (.notRunning _) fun hnone => by cases hnone
    · rw [heq]
      exact .idle .debounced fun hnone => by cases hnone
    · rw [heq]
      exact .idle .unchanged fun hnone => by cases hnone
    · refine .ran (hrunning ▸ .rerun origin changes) (hran.map _) fun a ha => ?_
      obtain ⟨outcome, hrerun, -⟩ := Reply.exists_of_map ha
      dsimp only
      rw [hrerun]
      rcases houtcome outcome hrerun with rfl | ⟨affected, rfl⟩
      · exact .fullRerun origin changes
      · exact .incremental origin changes affected
  | restart =>
    show Carried s _ ((s.restart now).1.map _, (s.restart now).2)
    rw [Session.restart]
    split
    · rename_i source hsource
      have hloaded : s.state ≠ .initial := fun hinitial => by
        rw [h.source_eq_none.2 hinitial] at hsource
        cases hsource
      refine .ran (.restart hloaded) ((ran_load now source s).map _) fun a ha => ?_
      rw [hdone ha]
      exact .restart
    · rename_i hsource
      exact .idle .noScript fun _ => ⟨rfl, h.source_eq_none.1 hsource⟩
  | stop =>
    show Carried s _ (s.stop.1.map _, s.stop.2)
    rw [Session.stop]
    split
    · rename_i hrunning
      exact .stopped rfl hrunning
    · exact .idle (.notRunning _) fun hnone => by cases hnone
  | introspect => exact .idle (.shown _) fun hnone => by cases hnone

/-- **How commands move the state of a session.**  Whatever requests a session has carried out, a
command that does not break off either leaves the session as it was, and then nothing is sent, or it
moves the state along the table.  Unless the session was stopped, this ends in the error state
exactly if the reply is that the script failed, and then everybody is told of the failure once; no
other command tells of a failure.  While the session is running, its script is at hand in the form in
which it is run, and only a restart of a session that was never started says that there is none.  The
number of runs grows by one if the reply says that a run has come to its end, and not otherwise. -/
theorem commands_move_the_state {id : SessionId} {settings : Settings} (h : Reached id settings s)
    (now : Instant) (c : Command) {reply : Reply Answer} (hperform : s.perform now c = (reply, s'))
    (hcrashed : reply ≠ .crashed) :
    (Idle reply → s' = s) ∧
      (¬ Idle reply → Moves c s.state s'.state ∧
        (c ≠ .stop → (s'.state = .error ↔ ∃ e, reply = .refused (.script e)))) ∧
      (∀ e, reply = .refused (.script e) → s.Tells s' [e.notice]) ∧
      ((∀ e, reply ≠ .refused (.script e)) → s.Tells s' []) ∧
      (s'.state = .running → s'.Loaded) ∧
      (s'.state = .initial ↔ s'.source = none) ∧
      (reply = .refused .noScript → c = .restart ∧ s.state = .initial) ∧
      (EndsRun c reply → s'.runs = s.runs + 1) ∧ (¬ EndsRun c reply → s'.runs = s.runs) := by
  have horder := h.inOrder
  have hcarried := horder.carried now c
  rw [hperform] at hcarried
  cases hcarried with
  | idle hidle hnone =>
    refine ⟨fun _ => rfl, fun h => absurd hidle h, fun e he => ?_, fun _ => .of_audience_eq rfl,
      horder.loaded, horder.source_eq_none.symm, hnone, fun hends => ?_, fun _ => rfl⟩
    · rw [he] at hidle
      cases hidle
    · cases hends <;> cases hidle
  | ran hlaunches hran hends =>
    have hnotStop : c ≠ .stop := by
      rintro rfl
      cases hlaunches
    have hafter := hran.inOrder
    cases hran with
    | done _ _ hstate hloaded hruns htells =>
      have hends := hends _ rfl
      refine ⟨fun hidle => ?_, fun _ => ⟨hstate ▸ .run hlaunches, fun _ => ?_⟩,
        fun _ he => (by cases he), fun _ => htells, fun _ => hloaded, hafter.source_eq_none.symm,
        fun hnone => (by cases hnone), fun _ => hruns, fun h => absurd hends h⟩
      · cases hends <;> cases hidle
      · rw [hstate]
        exact ⟨fun herror => (by cases herror), by rintro ⟨_, ⟨⟩⟩⟩
    | @failed e _ _ _ hstate hruns htells =>
      refine ⟨fun hidle => (by cases hidle), fun _ => ⟨hstate ▸ .fail hlaunches, fun _ =>
        ⟨fun _ => ⟨e, rfl⟩, fun _ => hstate⟩⟩, fun e' he => ?_, fun h => absurd rfl (h e),
        fun hrunning => ?_, hafter.source_eq_none.symm, fun hnone => (by cases hnone),
        fun hends => (by cases hends), fun _ => hruns⟩
      · cases he
        exact htells
      · cases hstate.symm.trans hrunning
    | crashed => exact absurd rfl hcrashed
  | stopped hstop hrunning =>
    subst hstop
    have hsome : s.source ≠ none := fun hnone => by
      cases hrunning.symm.trans (horder.source_eq_none.1 hnone)
    refine ⟨fun hidle => (by cases hidle), fun _ => ⟨?_, fun hstop => absurd rfl hstop⟩,
      fun _ he => (by cases he), fun _ => .of_audience_eq rfl, fun hstate => (by cases hstate),
      ⟨fun hstate => (by cases hstate), fun hnone => absurd hnone hsome⟩,
      fun hnone => (by cases hnone), fun hends => (by cases hends), fun _ => rfl⟩
    rw [hrunning]
    exact .stop

/-- A text that is no script. -/
def broken : Source := ⟨"app.tr", "x = (\n"⟩

/-- The theorem applies to a session that is started with a text that is no script. -/
theorem commands_move_the_state_of_broken : ∃ e s',
    observed.perform ⟨0⟩ (.start broken) = (.refused (.script e), s') ∧
      Moves (.start broken) .initial .error ∧ s'.state = .error ∧ observed.Tells s' [e.notice] ∧
      s'.runs = 0 := by
  obtain ⟨e, hparse⟩ : ∃ e, Script.ofSource broken.text = .error e := by
    have hfails : (Script.ofSource broken.text).isOk = false := by decide +kernel
    cases hparse : Script.ofSource broken.text with
    | ok script =>
      rw [hparse] at hfails
      cases hfails
    | error e => exact ⟨e, rfl⟩
  obtain ⟨s', hperform⟩ : ∃ s',
      observed.perform ⟨0⟩ (.start broken) = (.refused (.script (.parse e)), s') := by
    refine ⟨_, (perform_start rfl ⟨0⟩ broken).trans (Prod.ext ?_ rfl)⟩
    dsimp only
    rw [load]
    dsimp only
    rw [show ({ observed.unload with source := some broken } : Session).split? broken = none from
      rfl]
    dsimp only
    rw [runWholeFrom, hparse]
    rfl
  obtain ⟨-, hmoves, htells, -, -, -, -, -, hruns⟩ := commands_move_the_state
    (.attach (fun _ => true) .fresh : Reached ⟨"main"⟩ wholeSettings observed) ⟨0⟩ (.start broken)
    hperform (by rintro ⟨⟩)
  obtain ⟨hmoves, herror⟩ := hmoves (by rintro ⟨⟩)
  have hstate := (herror (by rintro ⟨⟩)).2 ⟨_, rfl⟩
  exact ⟨_, s', hperform, hstate ▸ hmoves, hstate, htells _ rfl, hruns (by rintro ⟨⟩)⟩

end Session

end ReactiveScript

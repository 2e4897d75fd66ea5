import ReactiveScript.Proofs.Session.Chronicle
import ReactiveScript.Proofs.Session.Deliveries

/-!
# The order of messages

A command that runs the script sends messages in a fixed order: first the changes of inputs that a
rerun takes up, then the lines that the script prints, and in the end either the rows on display or
the reason why the script failed.  In between nothing else is sent.

The lines of a walk over the graph come from its report, so a walk that breaks off sends none of them;
then the changes are all that observers learn.

* `Graph.outputLines_execute` — the lines in a report are those that the calls of the walk printed.
* `Session.linesOf` — the lines that a command prints, with the nodes that printed them.
* `Session.MessageOrder` — the orders of messages.
* `Session.messages_are_sent_in_order` — the theorem.
-/

set_option autoImplicit false

namespace ReactiveScript

/-- What a call printed, as messages to everybody that name the node. -/
def Call.outputLines (c : Call) : List (Option ObserverId × Message) :=
  Message.outputs (some c.visit.node) c.outcome.footprint.log.printed.toList

theorem Report.outputLines_print (id : NodeId) (lines : List String) (r : Report) :
    (r.print id lines).outputLines = r.outputLines ++ Message.outputs (some id) lines := by
  rw [print]
  split
  · rename_i hempty
    rw [List.isEmpty_iff.1 hempty]
    exact (List.append_nil _).symm
  · rw [outputLines, List.flatMap_append, List.flatMap_singleton]
    rfl

/-! ## The lines of a walk -/

namespace Graph

variable {g g' : Graph} {recompute : Option (List NodeId)} {inputs : InputTable} {id : NodeId}
  {body : Body} {args : List Value} {fits : Nat → Bool} {left failures : Nat} {r r' : Report}

/-- Attempts that do not break off note what each of them printed, failed ones included. -/
theorem outputLines_attempt
    (h : (attempt inputs id body args fits left failures g r).1 = some r') :
    r'.outputLines = r.outputLines ++
      (attemptCalls inputs id body args fits left failures g).flatMap Call.outputLines := by
  induction left generalizing failures g r with
  | zero =>
    cases h
    exact (List.append_nil _).symm
  | succ left ih =>
    rw [attempt] at h
    rw [attemptCalls]
    simp only [visitOf] at h ⊢
    generalize hvisit : (⟨id, args, _, inputs, _, _⟩ : Visit) = visit at h ⊢
    have hnode : visit.node = id := by rw [← hvisit]
    generalize g.update id Node.called = g₁ at h ⊢
    have hprint := Report.outputLines_print id (body visit).footprint.log.printed.toList r
    generalize r.print id (body visit).footprint.log.printed.toList = r₁ at h hprint
    rw [List.flatMap_cons, Call.outputLines, hnode, ← List.append_assoc, ← hprint]
    cases hresult : (body visit).result g₁.nodeTimeout with
    | ok v =>
      rw [hresult] at h
      cases h
      exact (List.append_nil _).symm
    | error e =>
      simp only [hresult] at h ⊢
      by_cases hzero : left = 0
      · rw [if_pos hzero] at h ⊢
        cases h
        exact (List.append_nil _).symm
      · rw [if_neg hzero] at h ⊢
        split at h
        · rename_i hfits
          rw [if_pos hfits]
          exact ih h
        · cases h

theorem outputLines_visit (h : g.visit recompute inputs id r = (some r', g')) :
    r'.outputLines
      = r.outputLines ++ (g.visitCalls recompute inputs id).flatMap Call.outputLines := by
  have hturn := visit_turn g recompute inputs id r
  rw [h] at hturn
  generalize g.visitCalls recompute inputs id = calls at hturn ⊢
  cases hturn with
  | skipped | blocked => exact (List.append_nil _).symm
  | ran _ _ _ hcalls hrun =>
    rw [hcalls]
    exact outputLines_attempt (congrArg Prod.fst hrun.symm)

theorem outputLines_visitAll {ids : List NodeId}
    (h : visitAll recompute inputs ids g r = (some r', g')) :
    r'.outputLines = r.outputLines ++
      (visitAllCalls recompute inputs ids g r).flatMap Call.outputLines := by
  induction ids generalizing g r with
  | nil =>
    cases h
    exact (List.append_nil _).symm
  | cons id ids ih =>
    obtain ⟨r₁, g₁, hvisit, hrest⟩ := visitAll_cons h
    rw [visitAllCalls, hvisit, List.flatMap_append, ← List.append_assoc, ← outputLines_visit hvisit]
    exact ih hrest

/-- **A report lists the lines that the calls of a walk printed**, in order and with their nodes. -/
theorem outputLines_execute (h : g.execute recompute inputs = (some r, g')) :
    r.outputLines = (g.executeCalls recompute inputs).flatMap Call.outputLines :=
  outputLines_visitAll h

end Graph

namespace Session

variable {s s' t : Session} {source : Source} {ms before lines : List (Option ObserverId × Message)}

/-! ## What commands send -/

/-- The lines that running a script as a whole prints, up to an error if there is one. -/
def wholeLines (source : Source) (script : Script) (s : Session) :
    List (Option ObserverId × Message) :=
  Message.outputs none
    (script.interpretLogged source.file s.inputs s.settings.recursionLimit).1

/-- The lines that loading a script prints. -/
def loadLines (source : Source) (s : Session) : List (Option ObserverId × Message) :=
  match s.split? source with
  | some _ => (s.loadCalls source).flatMap Call.outputLines
  | none =>
    match Script.ofSource source.text with
    | .ok script => s.wholeLines source script
    | .error _ => []

/-- The lines that running again what depends on some units prints. -/
def againLines (changed : List UnitId) (s : Session) : List (Option ObserverId × Message) :=
  match s.mode, s.script, s.source with
  | .incremental, _, _ => (s.againCalls changed).flatMap Call.outputLines
  | .fullRerun, some script, some source => s.wholeLines source script
  | .fullRerun, _, _ => []

/-- The lines that a command prints when it runs the script: those of all calls, with their nodes, or
those of the script as a whole. -/
def linesOf (c : Command) (s : Session) : List (Option ObserverId × Message) :=
  match c with
  | .start source => s.loadLines source
  | .rerun origin changes =>
    (s.takeUp origin changes).againLines (Table.keys (s.accepted changes))
  | .restart => s.source.elim [] fun source => s.loadLines source
  | .stop | .introspect => []

/-- The changes of inputs that a command takes up, one by one. -/
def updatesOf (c : Command) (s : Session) : List (Option ObserverId × Message) :=
  match c with
  | .rerun origin changes => updates origin (s.accepted changes)
  | _ => []

/-- What a run sends before its end: what has been sent before it and the lines of the script, and
the failure of the script. -/
inductive Speaks (s : Session) (before lines : List (Option ObserverId × Message)) {α : Type} :
    Reply α × Session → Prop
  /-- It came through. -/
  | done {a : α} {t : Session} : s.Sends t (before ++ lines) → Speaks s before lines (.done a, t)
  /-- The script failed. -/
  | failed {e : ScriptError} {t : Session} :
      s.Sends t (before ++ lines ++ [(none, .failure e.notice)]) →
      Speaks s before lines (.refused (.script e), t)
  /-- It broke off. -/
  | crashed {t : Session} : s.Sends t before → Speaks s before lines (.crashed, t)

/-- The messages of a run in their order, with those of its end. -/
inductive InTurn (before lines : List (Option ObserverId × Message)) (rows : List Row)
    (force : Bool) {α : Type} : Reply α → List (Option ObserverId × Message) → Prop
  /-- The rows are sent. -/
  | rows {a : α} (changed : List UnitId) :
      InTurn before lines rows force (.done a) (before ++ lines ++ [(none, .components rows changed)])
  /-- The rows need not be sent. -/
  | same {a : α} : force = false → InTurn before lines rows force (.done a) (before ++ lines)
  /-- The script failed. -/
  | failed (e : ScriptError) : InTurn before lines rows force (.refused (.script e))
      (before ++ lines ++ [(none, .failure e.notice)])
  /-- The run broke off. -/
  | crashed : InTurn before lines rows force .crashed before

section Runs

variable {α β : Type} {r : Reply α × Session}

theorem Speaks.map (h : s.Speaks before lines r) (f : α → β) :
    s.Speaks before lines (r.1.map f, r.2) := by
  cases h with
  | done h => exact .done h
  | failed h => exact .failed h
  | crashed h => exact .crashed h

/-- What has been sent before a run. -/
theorem Speaks.after (h : t.Speaks [] lines r) (hsends : s.Sends t before) :
    s.Speaks before lines r := by
  cases h with
  | done h => exact .done (hsends.trans h)
  | failed h => exact .failed (by rw [List.append_assoc]; exact hsends.trans h)
  | crashed h =>
    refine .crashed ?_
    have hall := hsends.trans h
    rwa [List.append_nil] at hall

/-- The end of a run. -/
theorem Speaks.finish (h : s.Speaks before lines r) (now : Instant) (force : Bool) :
    ∃ reply t, (match r.1 with
      | .done a => (.done a, r.2.finish now force)
      | .refused e => (.refused e, r.2)
      | .crashed => (.crashed, r.2) : Reply α × Session) = (reply, t) ∧
      ∃ ms, s.Sends t ms ∧ InTurn before lines t.rows force reply ms := by
  cases h with
  | @done a t h =>
    refine ⟨_, _, rfl, _, h.trans (Sends.finish now force t), ?_⟩
    by_cases hquiet : t.differing = [] ∧ t.gone = 0 ∧ force = false
    · rw [if_pos hquiet, List.append_nil]
      exact .same hquiet.2.2
    · rw [if_neg hquiet]
      exact .rows _
  | failed h => exact ⟨_, _, rfl, _, h, .failed _⟩
  | crashed h => exact ⟨_, _, rfl, _, h, .crashed⟩

theorem InTurn.map {rows : List Row} {force : Bool} {reply : Reply α}
    (h : InTurn before lines rows force reply ms) (f : α → β) :
    InTurn before lines rows force (reply.map f) ms := by
  cases h with
  | rows changed => exact .rows changed
  | same hforce => exact .same hforce
  | failed e => exact .failed e
  | crashed => exact .crashed

end Runs

/-- Running nodes prints what the calls print. -/
theorem speaks_runNodes (recompute : Option (List NodeId)) (s : Session) :
    s.Speaks [] ((s.graph.executeCalls recompute s.inputs).flatMap Call.outputLines)
      (s.runNodes recompute) := by
  rcases hexecute : s.graph.execute recompute s.inputs with ⟨_ | r, g'⟩
  · rw [runNodes, hexecute]
    exact .crashed (.of_audience_eq rfl)
  · rw [runNodes_eq hexecute, ← Graph.outputLines_execute hexecute]
    exact .done (.apply r { s with graph := g' })

/-- Running a script as a whole prints lines up to the first error. -/
theorem speaks_runWhole {script : Script} (hscript : s.script = some script)
    (hsource : s.source = some source) :
    s.Speaks [] (s.wholeLines source script) s.runWhole := by
  obtain ⟨printed, result, hlog⟩ : ∃ printed result, script.interpretLogged source.file s.inputs
      s.settings.recursionLimit = (printed, result) := ⟨_, _, rfl⟩
  have hsends := Sends.announce none printed s
  rw [wholeLines, runWhole]
  simp only [hscript, hsource, hlog]
  cases result with
  | ok units => exact .done hsends
  | error e => exact .failed (hsends.trans (.fail (α := Unit) e (s.announce none printed)))

/-- **A loaded script prints its lines when it runs again.** -/
theorem Loaded.speaks_runAgain (h : s.Loaded) (changed : List UnitId) :
    s.Speaks [] (s.againLines changed) (s.runAgain changed) := by
  cases h with
  | @split source p g₀ hmode hsource hsplit hprogram hlater =>
    rw [againLines, againCalls, hmode]
    dsimp only
    split
    · rename_i hempty
      rw [runAgain_of_unaffected hmode (List.isEmpty_iff.1 hempty), coldCalls, hprogram]
      dsimp only
      rw [install_reset hsplit hlater, runCold_of_split hsplit hprogram hlater]
      let t : Session := { s with graph := g₀, view := .empty }
      exact ((speaks_runNodes none t).after (s := s) (.of_audience_eq rfl)).map _
    · rename_i hsome
      rw [runAgain_of_affected hmode (mt List.isEmpty_iff.2 hsome)]
      exact (speaks_runNodes _ s).map _
  | @whole source script hmode hsource hparse hscript =>
    rw [againLines, hmode, hscript, hsource, Session.runAgain, hmode]
    exact (speaks_runWhole hscript hsource).map _

/-- **Loading a script sends its lines, and then its rows or its failure.** -/
theorem load_inTurn (now : Instant) (source : Source) (s : Session) :
    ∃ ms, s.Sends (s.load now source).2 ms ∧
      InTurn [] (s.loadLines source) (s.load now source).2.rows true (s.load now source).1 ms := by
  rw [loadLines, loadCalls]
  cases hsplit : s.split? source with
  | some pg =>
    obtain ⟨p, g⟩ := pg
    have hrun : s.Speaks [] ((g.executeCalls none s.inputs).flatMap Call.outputLines)
        ((s.split source p g).runNodes none) :=
      (speaks_runNodes none (s.split source p g)).after (.of_audience_eq rfl)
    obtain ⟨reply, t, hend, hturn⟩ := hrun.finish now true
    have hload : s.load now source = (reply, t) := by
      rw [load_eq_of_split now hsplit, ← hend]
      generalize (s.split source p g).runNodes none = run
      obtain ⟨_ | _ | _, u⟩ := run <;> rfl
    rw [hload]
    exact hturn
  | none =>
    cases hparse : Script.ofSource source.text with
    | error e =>
      have hsplit : ({ s.unload with source := some source } : Session).split? source = none :=
        hsplit
      rw [load, hsplit]
      dsimp only
      rw [runWholeFrom, hparse]
      exact ⟨[(none, .failure (ScriptError.parse e).notice)], rfl, .failed _⟩
    | ok script =>
      have hrun : s.Speaks [] (s.wholeLines source script) (s.whole source script).runWhole :=
        (speaks_runWhole (s := s.whole source script) rfl rfl).after (.of_audience_eq rfl)
      obtain ⟨reply, t, hend, hturn⟩ := hrun.finish now true
      have hload : s.load now source = (reply, t) := by
        rw [load_eq_of_whole now hsplit hparse, ← hend]
        generalize (s.whole source script).runWhole = run
        obtain ⟨_ | _ | _, u⟩ := run <;> rfl
      rw [hload]
      exact hturn

/-! ## Commands -/

/-- The order in which a command sends messages. -/
inductive MessageOrder (s : Session) (c : Command) (t : Session) :
    Reply Answer → List (Option ObserverId × Message) → Prop
  /-- Nothing is done, and nothing is sent. -/
  | idle {reply : Reply Answer} : Idle reply → MessageOrder s c t reply []
  /-- The session is stopped; nothing is sent. -/
  | stopped : c = .stop → MessageOrder s c t (.done .done) []
  /-- A run has come to its end, and the rows are sent. -/
  | rows {reply : Reply Answer} (changed : List UnitId) : EndsRun c reply →
      MessageOrder s c t reply
        (s.updatesOf c ++ s.linesOf c ++ [(none, .components t.rows changed)])
  /-- A rerun has come to its end, and the rows need not be sent. -/
  | same {reply : Reply Answer} : EndsRun c reply → c.loads = false →
      MessageOrder s c t reply (s.updatesOf c ++ s.linesOf c)
  /-- The script has failed, and the reason is sent. -/
  | failed (e : ScriptError) : MessageOrder s c t (.refused (.script e))
      (s.updatesOf c ++ s.linesOf c ++ [(none, .failure e.notice)])
  /-- A walk has broken off: its lines are not sent. -/
  | crashed : MessageOrder s c t .crashed (s.updatesOf c)

theorem InTurn.messageOrder {c : Command} {reply : Reply Answer}
    (h : InTurn (s.updatesOf c) (s.linesOf c) t.rows c.loads reply ms)
    (hends : ∀ a, reply = .done a → EndsRun c reply) : s.MessageOrder c t reply ms := by
  cases h with
  | rows changed => exact .rows changed (hends _ rfl)
  | same hforce => exact .same (hends _ rfl) hforce
  | failed e => exact .failed e
  | crashed => exact .crashed

/-- Loading a script by a command. -/
theorem messageOrder_load (now : Instant) (source : Source) {c : Command}
    (hupdates : s.updatesOf c = []) (hlines : s.linesOf c = s.loadLines source)
    (hloads : c.loads = true) (hends : EndsRun c (.done .done)) :
    ∃ ms, s.Sends (s.load now source).2 ms ∧ s.MessageOrder c (s.load now source).2
      ((s.load now source).1.map fun _ => .done) ms := by
  obtain ⟨ms, hsends, hturn⟩ := load_inTurn now source s
  refine ⟨ms, hsends, InTurn.messageOrder ?_ fun a ha => ?_⟩
  · rw [hupdates, hlines, hloads]
    exact hturn.map _
  · obtain ⟨_, hdone, rfl⟩ := Reply.exists_of_map ha
    rw [ha]
    exact hends

/-- A rerun that takes up changes sends them, the lines of the script, and then its rows or its
failure. -/
theorem Loaded.rerun_inTurn (h : s.Loaded) (hrunning : s.state = .running) (now : Instant)
    (origin : Option ObserverId) (changes : Table UnitId Value)
    (hdebounced : s.isDebounced now = false) (haccepted : s.accepted changes ≠ []) :
    ∃ ms, s.Sends (s.rerun now origin changes).2 ms ∧
      InTurn (updates origin (s.accepted changes))
        ((s.takeUp origin changes).againLines (Table.keys (s.accepted changes)))
        (s.rerun now origin changes).2.rows false (s.rerun now origin changes).1 ms := by
  obtain ⟨memo, inputs, audience, htake, -⟩ := takeUp_eq origin changes s
  have hloaded : (s.takeUp origin changes).Loaded := by
    rw [htake]
    exact h.keep rfl rfl rfl rfl rfl (.refl _)
  have hrun := (hloaded.speaks_runAgain (Table.keys (s.accepted changes))).after
    (Sends.takeUp origin changes s)
  obtain ⟨reply, t, hend, hturn⟩ := hrun.finish now false
  have hrerun : s.rerun now origin changes = (reply, t) := by
    rw [rerun_eq hrunning hdebounced haccepted, ← hend]
    dsimp only
    generalize (s.takeUp origin changes).runAgain (Table.keys (s.accepted changes)) = run
    obtain ⟨_ | _ | _, u⟩ := run <;> rfl
  rw [hrerun]
  exact hturn

/-- **Every command sends its messages in order.** -/
theorem InOrder.messageOrder (h : s.InOrder) (now : Instant) (c : Command) :
    ∃ ms, s.Sends (s.perform now c).2 ms ∧
      s.MessageOrder c (s.perform now c).2 (s.perform now c).1 ms := by
  have hidle : ∀ {reply : Reply Answer}, Idle reply →
      ∃ ms, s.Sends s ms ∧ s.MessageOrder c s reply ms := fun hidle =>
    ⟨[], .of_audience_eq rfl, .idle hidle⟩
  cases c with
  | start source =>
    show ∃ ms, s.Sends (s.start now source).2 ms ∧
      s.MessageOrder _ (s.start now source).2 ((s.start now source).1.map _) ms
    rw [Session.start]
    split
    · exact messageOrder_load now source rfl rfl rfl (.start source)
    · exact hidle .alreadyStarted
  | restart =>
    show ∃ ms, s.Sends (s.restart now).2 ms ∧
      s.MessageOrder _ (s.restart now).2 ((s.restart now).1.map _) ms
    rw [Session.restart]
    split
    · rename_i source hsource
      refine messageOrder_load now source rfl ?_ rfl .restart
      rw [linesOf, hsource]
      rfl
    · exact hidle .noScript
  | stop =>
    show ∃ ms, s.Sends s.stop.2 ms ∧ s.MessageOrder _ s.stop.2 (s.stop.1.map _) ms
    rw [Session.stop]
    split
    · exact ⟨[], .of_audience_eq rfl, .stopped rfl⟩
    · exact hidle (.notRunning _)
  | introspect => exact hidle (.shown _)
  | rerun origin changes =>
    show ∃ ms, s.Sends (s.rerun now origin changes).2 ms ∧ s.MessageOrder _
      (s.rerun now origin changes).2 ((s.rerun now origin changes).1.map _) ms
    by_cases hrunning : s.state = .running
    · cases hdebounced : s.isDebounced now with
      | true =>
        rw [rerun, if_neg (not_not_intro hrunning), if_pos hdebounced]
        exact hidle .debounced
      | false =>
        by_cases haccepted : s.accepted changes = []
        · rw [rerun_of_not_accepted hrunning hdebounced haccepted]
          exact hidle .unchanged
        · obtain ⟨ms, hsends, hturn⟩ := (h.loaded hrunning).rerun_inTurn hrunning now origin
            changes hdebounced haccepted
          refine ⟨ms, hsends, InTurn.messageOrder (s := s) (c := .rerun origin changes)
            (hturn.map Answer.rerun) fun a ha => ?_⟩
          obtain ⟨outcome, hdone, rfl⟩ := Reply.exists_of_map ha
          rw [ha]
          rcases outcome_of_done_rerun hrunning hdebounced haccepted hdone with
            rfl | ⟨affected, rfl⟩
          · exact .fullRerun origin changes
          · exact .incremental origin changes affected
    · rw [rerun, if_pos hrunning]
      exact hidle (.notRunning _)

/-! ## Observers -/

theorem Chronicle.inOrder {id : SessionId} {settings : Settings} {calls : List Call}
    {broken : Bool} (h : Chronicle id settings calls broken s) : s.InOrder :=
  (h.induct (P := fun _ _ _ => True) trivial (fun _ _ => trivial) fun _ _ _ _ _ => trivial).1

/-- Numbers of observers are given once, whatever requests a session has carried out. -/
theorem Chronicle.sound {id : SessionId} {settings : Settings} {calls : List Call} {broken : Bool}
    (h : Chronicle id settings calls broken s) : s.audience.Sound := by
  induction h with
  | fresh => exact Audience.sound_empty
  | attach accepts _ ih => exact ih.attach accepts _
  | detach observer _ ih => exact ih.detach observer
  | hangUp observer _ ih => exact ih.hangUp observer
  | publish _ ih => exact ih.broadcast none _
  | perform now c h ih =>
    obtain ⟨ms, hsends, -⟩ := h.inOrder.messageOrder now c
    rw [hsends]
    exact ih.broadcastAll ms

/-- **Messages are sent in order.**  Whatever requests a session has carried out, a command that runs
the script sends the changes that it takes up, to everybody but the one whom they come from, then the
lines that the script prints, those of failed attempts and those before an error included, and then
the rows on display or the reason why the script failed.  A rerun may leave out the rows; if a walk
breaks off, the changes are all that is sent, and a command that does not run anything sends nothing.

Every observer gets what is not kept from it, in this order, up to the first message that its line
refuses.  It stays attached exactly if it gets everything, and gets nothing more if not. -/
theorem messages_are_sent_in_order {id : SessionId} {settings : Settings} {calls : List Call}
    {broken : Bool} (h : Chronicle id settings calls broken s) (now : Instant) (c : Command)
    {reply : Reply Answer} (hperform : s.perform now c = (reply, t)) :
    ∃ ms, s.Sends t ms ∧ s.MessageOrder c t reply ms ∧
      (∀ o ∈ s.audience.observers,
        t.audience.received o.id = s.audience.received o.id ++ o.hearing ms ∧
          ((∃ o' ∈ t.audience.observers, o'.id = o.id) ↔ o.hearing ms = o.addressed ms)) ∧
      ∀ id, (∀ o ∈ s.audience.observers, o.id ≠ id) →
        (∀ o ∈ t.audience.observers, o.id ≠ id) ∧ t.audience.received id = s.audience.received id := by
  obtain ⟨ms, hsends, horder⟩ := h.inOrder.messageOrder now c
  rw [hperform] at hsends horder
  have haudience : t.audience = s.audience.broadcastAll ms := hsends
  refine ⟨ms, hsends, horder, fun o ho => ?_, fun id hid => ?_⟩
  · rw [haudience]
    exact Audience.received_broadcastAll h.sound ho
  · rw [haudience]
    exact Audience.received_broadcastAll_of_gone hid

/-! ## A script that fails -/

/-- The text of a script that prints a line and then fails. -/
def faulty : Source := ⟨"app.tr", "print(\"hi\")\ny\n"⟩

/-- The script that the text spells. -/
def faultyScript : Script :=
  ⟨[.expr ⟨1, 1⟩ (.call ⟨1, 1⟩ "print" [.literal ⟨1, 7⟩ (.text "hi")] []),
    .expr ⟨2, 1⟩ (.name ⟨2, 1⟩ "y")]⟩

set_option maxRecDepth 10000 in
theorem ofSource_faulty : Script.ofSource faulty.text = .ok faultyScript := by cbv

theorem exists_interpretLogged_faultyScript :
    ∃ e, faultyScript.interpretLogged "app.tr" [] 64 = (["hi"], .error e) := by
  have hlines : (faultyScript.interpretLogged "app.tr" [] 64).1 = ["hi"] := by decide +kernel
  have hfails : (faultyScript.interpretLogged "app.tr" [] 64).2.isOk = false := by decide +kernel
  cases hresult : (faultyScript.interpretLogged "app.tr" [] 64).2 with
  | error e => exact ⟨e, Prod.ext hlines hresult⟩
  | ok units =>
    rw [hresult] at hfails
    cases hfails

/-- The theorem applies to a script that prints a line and then fails: its observer is sent the line
and the failure. -/
theorem messages_are_sent_in_order_of_faulty : ∃ e t,
    observed.perform ⟨0⟩ (.start faulty) = (.refused (.script e), t) ∧
      t.audience.received ⟨0⟩ = [.output "hi" none, .failure e.notice] := by
  obtain ⟨e, hlog⟩ := exists_interpretLogged_faultyScript
  have hlog : faultyScript.interpretLogged faulty.file observed.inputs
      observed.settings.recursionLimit = (["hi"], .error e) := hlog
  have hsplit : observed.split? faulty = none := rfl
  obtain ⟨t, hperform⟩ : ∃ t,
      observed.perform ⟨0⟩ (.start faulty) = (.refused (.script e), t) := by
    let u := observed.whole faulty faultyScript
    have hwhole : u.runWhole = (u.announce none ["hi"]).fail e := by
      have hscript : u.script = some faultyScript := rfl
      have hsource : u.source = some faulty := rfl
      have hlog : faultyScript.interpretLogged faulty.file u.inputs u.settings.recursionLimit
          = (["hi"], .error e) := hlog
      rw [runWhole]
      simp only [hscript, hsource, hlog]
    have hload : observed.load ⟨0⟩ faulty = (u.announce none ["hi"]).fail e := by
      rw [load_eq_of_whole ⟨0⟩ hsplit ofSource_faulty, hwhole]
      rfl
    refine ⟨(observed.load ⟨0⟩ faulty).2, ?_⟩
    rw [perform_start rfl, hload]
    rfl
  have hlines : observed.linesOf (.start faulty) = [(none, .output "hi" none)] := by
    show observed.loadLines faulty = _
    rw [loadLines, hsplit]
    dsimp only
    rw [ofSource_faulty]
    dsimp only
    rw [wholeLines, hlog]
    rfl
  have hchronicle : Chronicle ⟨"main"⟩ wholeSettings [] false observed :=
    .attach (fun _ => true) .fresh
  obtain ⟨ms, -, horder, hreceived, -⟩ := messages_are_sent_in_order hchronicle ⟨0⟩
    (.start faulty) hperform
  obtain ⟨hreceived, -⟩ := hreceived ⟨⟨0⟩, fun _ => true, 0⟩ (List.mem_singleton.2 rfl)
  refine ⟨e, t, hperform, hreceived.trans ?_⟩
  cases horder with
  | idle hidle => cases hidle
  | rows _ hends => cases hends
  | same hends => cases hends
  | failed =>
    rw [hlines]
    rfl

end Session

end ReactiveScript

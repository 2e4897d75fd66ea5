import ReactiveScript.Proofs.Session.Display

/-!
# How requests are carried out

What the parts of a request make of a session, each as an equation: running nodes or a script as a
whole, the end of a run, storing inputs, and a rerun, which is made of these.

* `Session.finish_eq`, `Session.runNodes_eq`, `Session.runWhole_eq`, `Session.store_eq` — the parts.
* `Session.takeUp`, `Session.rerun_cases` — the inputs that a rerun takes up, and what it does.
* `Session.state_of_done_runAgain` — a session that reacts to inputs goes on to do so.
-/

set_option autoImplicit false

namespace ReactiveScript

theorem Reply.exists_done {α : Type} {r : Reply α} (h : r.settle.toOption.isSome) :
    ∃ a, r = .done a := by
  cases r with
  | done a => exact ⟨a, rfl⟩
  | refused | crashed => cases h

theorem Reply.exists_of_map {α β : Type} {f : α → β} {r : Reply α} {b : β}
    (h : r.map f = .done b) : ∃ a, r = .done a ∧ f a = b := by
  cases r with
  | done a => exact ⟨a, rfl, Reply.done.inj h⟩
  | refused | crashed => cases h

namespace Session

variable {s : Session}

/-- The end of a run packs what is on view. -/
theorem finish_eq (now : Instant) (force : Bool) (s : Session) :
    ∃ shown audience, s.finish now force = { s with
      shown
      audience
      rows := OutputUnit.pack (s.view.units s.graph.order)
      lastRun := some now
      runs := s.runs + 1 } := by
  rw [finish]
  dsimp only
  split
  · exact ⟨_, s.audience, rfl⟩
  · exact ⟨_, _, rfl⟩

theorem runNodes_eq {recompute : Option (List NodeId)} {r : Report} {g' : Graph}
    (h : s.graph.execute recompute s.inputs = (some r, g')) :
    s.runNodes recompute = (.done (), ({ s with graph := g' } : Session).apply r) := by
  rw [runNodes, h]

/-- Running a script as a whole replaces what is on view by its units. -/
theorem runWhole_eq {script : Script} {source : Source} {units : List OutputUnit}
    (hscript : s.script = some script) (hsource : s.source = some source)
    (hinterpret : script.interpret source.file s.inputs s.settings.recursionLimit = .ok units) :
    ∃ audience, s.runWhole
      = (.done (), { s with audience, view := View.empty.replace View.wholeScript units }) := by
  obtain ⟨lines, hlines⟩ : ∃ lines, script.interpretLogged source.file s.inputs
      s.settings.recursionLimit = (lines, .ok units) := ⟨_, Prod.ext rfl hinterpret⟩
  obtain ⟨audience, hannounce⟩ := announce_eq none lines s
  refine ⟨audience, ?_⟩
  rw [runWhole]
  simp only [hscript, hsource, hlines, hannounce]

/-- Running a script as a whole fails, or replaces what is on view by its units. -/
theorem runWhole_cases {script : Script} {source : Source} (hscript : s.script = some script)
    (hsource : s.source = some source) :
    (∃ e, s.runWhole.1 = .refused e ∧ s.runWhole.2.state = .error) ∨ ∃ units audience,
      script.interpret source.file s.inputs s.settings.recursionLimit = .ok units ∧
        s.runWhole
          = (.done (), { s with audience, view := View.empty.replace View.wholeScript units }) := by
  cases hinterpret : script.interpret source.file s.inputs s.settings.recursionLimit with
  | ok units =>
    obtain ⟨audience, hrun⟩ := runWhole_eq hscript hsource hinterpret
    exact Or.inr ⟨units, audience, rfl, hrun⟩
  | error e =>
    obtain ⟨lines, hlines⟩ : ∃ lines, script.interpretLogged source.file s.inputs
        s.settings.recursionLimit = (lines, .error e) := ⟨_, Prod.ext rfl hinterpret⟩
    rw [runWhole]
    simp only [hscript, hsource, hlines]
    exact Or.inl ⟨_, rfl, rfl⟩

/-- Running nodes breaks off, or the walk is taken on view. -/
theorem runNodes_cases (recompute : Option (List NodeId)) (s : Session) :
    (s.runNodes recompute).1 = .crashed ∨ ∃ r g', s.graph.execute recompute s.inputs = (some r, g') ∧
      s.runNodes recompute = (.done (), ({ s with graph := g' } : Session).apply r) := by
  rcases hexecute : s.graph.execute recompute s.inputs with ⟨_ | r, g'⟩
  · rw [runNodes, hexecute]
    exact Or.inl rfl
  · exact Or.inr ⟨r, g', rfl, runNodes_eq hexecute⟩

/-! ## Runs that come to their end -/

theorem state_runNodes (recompute : Option (List NodeId)) (s : Session) :
    (s.runNodes recompute).2.state = s.state := by
  rw [runNodes]
  split
  · rename_i r g _
    obtain ⟨audience, happly⟩ := apply_eq r { s with graph := g }
    rw [happly]
  · rfl

theorem state_of_done_runWhole (h : s.runWhole.1 = .done ()) : s.runWhole.2.state = s.state := by
  rw [runWhole] at h ⊢
  split
  · rename_i script source hscript hsource
    simp only [hscript, hsource] at h ⊢
    obtain ⟨audience, hannounce⟩ := announce_eq none
      (script.interpretLogged source.file s.inputs s.settings.recursionLimit).1 s
    split
    · rw [hannounce]
    · rename_i e he
      rw [he] at h
      cases h
  · rfl

theorem state_of_done_runWholeFrom {source : Source} (h : (s.runWholeFrom source).1 = .done ()) :
    (s.runWholeFrom source).2.state = .running := by
  rw [runWholeFrom] at h ⊢
  split
  · rename_i e he
    rw [he] at h
    cases h
  · rename_i script hscript
    rw [hscript] at h
    exact state_of_done_runWhole h

theorem state_of_done_runCold (hrunning : s.state = .running) (h : s.runCold.1 = .done ()) :
    s.runCold.2.state = .running := by
  rw [runCold] at h ⊢
  split
  · rename_i hprogram
    simp only [hprogram] at h
    exact (state_of_done_runWhole h).trans hrunning
  · rename_i program hprogram
    simp only [hprogram] at h ⊢
    split
    · exact (state_runNodes none _).trans hrunning
    · rename_i hinstall
      rw [hinstall] at h
      dsimp only at h ⊢
      split
      · rename_i source hsource
        simp only [hsource] at h ⊢
        exact state_of_done_runWholeFrom h
      · exact hrunning

/-- A run that comes to its end has run something. -/
theorem outcome_of_done_runAgain {changed : List UnitId} {outcome : RerunOutcome}
    (h : (s.runAgain changed).1 = .done outcome) :
    outcome = .fullRerun ∨ ∃ affected, outcome = .incremental affected := by
  rw [runAgain] at h
  split at h
  · rw [runAffected] at h
    dsimp only at h
    split at h
    · obtain ⟨_, -, rfl⟩ := Reply.exists_of_map h
      exact Or.inl rfl
    · obtain ⟨_, -, rfl⟩ := Reply.exists_of_map h
      exact Or.inr ⟨_, rfl⟩
  · obtain ⟨_, -, rfl⟩ := Reply.exists_of_map h
    exact Or.inl rfl

/-- A session that reacts to inputs goes on to do so, unless its script fails. -/
theorem state_of_done_runAgain {changed : List UnitId} {outcome : RerunOutcome}
    (hrunning : s.state = .running) (h : (s.runAgain changed).1 = .done outcome) :
    (s.runAgain changed).2.state = .running := by
  rw [runAgain] at h ⊢
  split
  · rename_i hmode
    rw [hmode] at h
    dsimp only at h ⊢
    rw [runAffected] at h ⊢
    dsimp only at h ⊢
    split
    · rename_i hempty
      rw [if_pos hempty] at h
      obtain ⟨⟨⟩, hcold, -⟩ := Reply.exists_of_map h
      exact state_of_done_runCold hrunning hcold
    · exact (state_runNodes _ s).trans hrunning
  · rename_i hmode
    rw [hmode] at h
    obtain ⟨⟨⟩, hwhole, -⟩ := Reply.exists_of_map h
    exact (state_of_done_runWhole hwhole).trans hrunning

/-! ## Reruns -/

/-- Storing inputs changes no others. -/
theorem store_eq (origin : Option ObserverId) (changes : Table UnitId Value) (s : Session) :
    ∃ inputs audience, changes.foldl (store origin) s = { s with inputs, audience } ∧
      ∀ unit, unit ∉ Table.keys changes → Table.get? unit inputs = Table.get? unit s.inputs := by
  induction changes generalizing s with
  | nil => exact ⟨s.inputs, s.audience, rfl, fun _ _ => rfl⟩
  | cons change changes ih =>
    obtain ⟨inputs, audience, heq, hothers⟩ := ih (s.store origin change)
    refine ⟨inputs, audience, heq, fun unit hunit => ?_⟩
    obtain ⟨hne, hunit⟩ := not_or.1 (mt List.mem_cons.2 hunit)
    rw [hothers unit hunit]
    exact (Table.get?_put _ _ _ _).trans (if_neg (Ne.symm hne))

/-- The changes that a rerun takes up: those of inputs whose form on record is another one. -/
def accepted (s : Session) (changes : Table UnitId Value) : Table UnitId Value :=
  (s.inputMemo.sift (fun e => (e.1, e.2.toJson)) changes).1

/-- A session that has stored the changes that it takes up. -/
def takeUp (origin : Option ObserverId) (changes : Table UnitId Value) (s : Session) : Session :=
  (s.accepted changes).foldl (store origin)
    { s with inputMemo := (s.inputMemo.sift (fun e => (e.1, e.2.toJson)) changes).2 }

/-- Taking up changes changes no other inputs. -/
theorem takeUp_eq (origin : Option ObserverId) (changes : Table UnitId Value) (s : Session) :
    ∃ inputMemo inputs audience, s.takeUp origin changes = { s with inputMemo, inputs, audience } ∧
      ∀ unit, unit ∉ Table.keys (s.accepted changes) →
        Table.get? unit inputs = Table.get? unit s.inputs := by
  obtain ⟨inputs, audience, heq, hothers⟩ := store_eq origin (s.accepted changes)
    { s with inputMemo := (s.inputMemo.sift (fun e => (e.1, e.2.toJson)) changes).2 }
  exact ⟨_, inputs, audience, heq, hothers⟩

/-- A rerun that takes up no changes does nothing. -/
theorem rerun_of_not_accepted {now : Instant} {origin : Option ObserverId}
    {changes : Table UnitId Value} (hrunning : s.state = .running)
    (hdebounced : s.isDebounced now = false) (haccepted : s.accepted changes = []) :
    s.rerun now origin changes = (.done .unchanged, s) := by
  rw [rerun, if_neg (not_not_intro hrunning), hdebounced, if_neg Bool.false_ne_true]
  exact if_pos (List.isEmpty_iff.2 haccepted)

/-- A rerun that takes up changes stores them and runs what depends on them, and there is an end of a
run, unless the run is refused or breaks off. -/
theorem rerun_eq {now : Instant} {origin : Option ObserverId} {changes : Table UnitId Value}
    (hrunning : s.state = .running) (hdebounced : s.isDebounced now = false)
    (haccepted : s.accepted changes ≠ []) : s.rerun now origin changes =
      let r := (s.takeUp origin changes).runAgain (Table.keys (s.accepted changes))
      match r.1 with
      | .done outcome => (.done outcome, r.2.finish now false)
      | _ => r := by
  rw [rerun, if_neg (not_not_intro hrunning), hdebounced, if_neg Bool.false_ne_true]
  exact if_neg (mt List.isEmpty_iff.1 haccepted)

/-- A rerun that takes up changes and is carried out has run something. -/
theorem outcome_of_done_rerun {now : Instant} {origin : Option ObserverId}
    {changes : Table UnitId Value} {outcome : RerunOutcome} (hrunning : s.state = .running)
    (hdebounced : s.isDebounced now = false) (haccepted : s.accepted changes ≠ [])
    (hdone : (s.rerun now origin changes).1 = .done outcome) :
    outcome = .fullRerun ∨ ∃ affected, outcome = .incremental affected := by
  rw [rerun_eq hrunning hdebounced haccepted] at hdone
  dsimp only at hdone
  split at hdone
  · rename_i outcome' hagain
    obtain rfl := Reply.done.inj hdone
    exact outcome_of_done_runAgain hagain
  · rename_i hnot
    exact absurd hdone (hnot _)

/-- A rerun leaves a session alone, or takes up changes. -/
theorem rerun_cases (now : Instant) (origin : Option ObserverId) (changes : Table UnitId Value)
    (s : Session) : (s.rerun now origin changes).2 = s ∨ s.state = .running ∧
      s.rerun now origin changes =
        let r := (s.takeUp origin changes).runAgain (Table.keys (s.accepted changes))
        match r.1 with
        | .done outcome => (.done outcome, r.2.finish now false)
        | _ => r := by
  by_cases hrunning : s.state = .running
  · cases hdebounced : s.isDebounced now with
    | true =>
      rw [rerun, if_neg (not_not_intro hrunning), if_pos hdebounced]
      exact Or.inl rfl
    | false =>
      by_cases haccepted : s.accepted changes = []
      · rw [rerun_of_not_accepted hrunning hdebounced haccepted]
        exact Or.inl rfl
      · exact Or.inr ⟨hrunning, rerun_eq hrunning hdebounced haccepted⟩
  · rw [rerun, if_pos hrunning]
    exact Or.inl rfl

/-- A rerun that is not debounced does not say that it is. -/
theorem isDebounced_of_rerun {now : Instant} {origin : Option ObserverId}
    {changes : Table UnitId Value} (h : (s.rerun now origin changes).1 = .done .debounced) :
    s.isDebounced now = true := by
  cases hdebounced : s.isDebounced now with
  | true => rfl
  | false =>
    by_cases hrunning : s.state = .running
    · by_cases haccepted : s.accepted changes = []
      · rw [rerun_of_not_accepted hrunning hdebounced haccepted] at h
        cases h
      · rcases outcome_of_done_rerun hrunning hdebounced haccepted h with hfull | ⟨_, hsome⟩
        · cases hfull
        · cases hsome
    · rw [rerun, if_pos hrunning] at h
      cases h

end Session

end ReactiveScript

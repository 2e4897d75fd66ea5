import Mathlib
import ReactiveScript.Proofs.Session.Inputs
import ReactiveScript.Proofs.Session.Observers
import ReactiveScript.Proofs.Session.Reruns

/-!
# Batches that are carried out together

A worker carries out reruns from one origin as one if they wait for it together.  This makes no
difference to the inputs as far as their forms tell, and none to what is displayed, as long as values
of a unit with the same form are the same.  If they are not, a value that is dropped after another
one was stored may be stored when it comes first.

The way to see it is that a session displays what its script comes to under the inputs as they are,
and that a rerun which leaves a session with inputs under which another one is up to date cannot
break off, since its nodes come to what the nodes of the other one have come to.

* `Session.Undisturbed` — the sessions that requests lead to in which no rerun forgets a node.
* `Session.Consistent` — the invariant: what such a session displays fits its inputs.
* `Session.UpToDate.rerun_of_inputs` — a rerun displays what its inputs determine.
* `Session.coalescing_is_transparent` — the theorem.
-/

set_option autoImplicit false

namespace ReactiveScript

namespace Session

variable {s s₁ s₂ s₃ : Session} {id : SessionId} {settings : Settings} {source : Source}
  {p : Program} {g₀ : Graph} {script : Script} {now : Instant} {origin : Option ObserverId}
  {changes c₁ c₂ : Table UnitId Value}

/-- The sessions that requests lead to, whatever happens to the observers, if no run breaks off, no
rerun forgets a node, and no two nodes ever show units with the same id. -/
inductive Undisturbed (id : SessionId) (settings : Settings) (source : Source) : Session → Prop
  /-- A session that has not been started. -/
  | fresh : Undisturbed id settings source (.fresh id settings)
  /-- Observers come and go, and the graph is published. -/
  | observe {s : Session} (audience : Audience) : Undisturbed id settings source s →
      Undisturbed id settings source { s with audience }
  /-- The session is started. -/
  | start {s : Session} (now : Instant) : Undisturbed id settings source s →
      (s.start now source).1 ≠ .crashed → Apart (s.start now source).2.view.shown →
      Undisturbed id settings source (s.start now source).2
  /-- The session is restarted. -/
  | restart {s : Session} (now : Instant) : Undisturbed id settings source s →
      (s.restart now).1 ≠ .crashed → Apart (s.restart now).2.view.shown →
      Undisturbed id settings source (s.restart now).2
  /-- The session is stopped. -/
  | stop {s : Session} : Undisturbed id settings source s → Undisturbed id settings source s.stop.2
  /-- Inputs change. -/
  | rerun {s : Session} (now : Instant) (origin : Option ObserverId)
      (changes : Table UnitId Value) : Undisturbed id settings source s →
      (s.rerun now origin changes).1 ≠ .crashed → ¬ s.Forgets changes →
      Apart (s.rerun now origin changes).2.view.shown →
      Undisturbed id settings source (s.rerun now origin changes).2

/-- If scripts are split into nodes, nodes may take any time. -/
def UnlimitedIfSplit (settings : Settings) : Prop :=
  settings.incremental = true → settings.nodeTimeout = none

/-! ## What is displayed fits the inputs -/

/-- A session displays what its script comes to under the inputs as they are. -/
def Current (settings : Settings) (source : Source) (s : Session) : Prop :=
  (∃ p g₀, UpToDate settings source p g₀ s) ∨ ∃ script, WholeUpToDate source script s

/-- What a session has on record and displays fits its inputs. -/
structure Consistent (settings : Settings) (source : Source) (s : Session) : Prop where
  /-- The settings of the session. -/
  settings_eq : s.settings = settings
  /-- No other script has been loaded. -/
  source_eq : ∀ source', s.source = some source' → source' = source
  /-- The forms of the inputs are on record. -/
  recorded : s.Recorded
  /-- A session that reacts to inputs displays what its script comes to. -/
  current : s.state = .running → s.Current settings source

/-- A script whose loading is refused has failed. -/
theorem state_of_refused_load {e : SessionError} (h : (s.load now source).1 = .refused e) :
    (s.load now source).2.state = .error := by
  obtain ⟨r, -, hrefused, hload⟩ := exists_load_eq now source s
  rw [hload] at h ⊢
  obtain ⟨_ | e | _, t⟩ := r
  · cases h
  · exact hrefused e rfl
  · cases h

/-- A session that carries out a rerun goes on to react to inputs. -/
theorem state_of_done_rerun {outcome : RerunOutcome} (hrunning : s.state = .running)
    (h : s.rerun now origin changes = (.done outcome, s₁)) : s₁.state = .running := by
  obtain rfl : (s.rerun now origin changes).2 = s₁ := congrArg Prod.snd h
  rcases exists_rerun_eq now origin changes s with heq | ⟨-, r, -, hdone, heq⟩
  · rwa [heq]
  · rw [heq] at h ⊢
    obtain ⟨outcome' | _ | _, t⟩ := r
    · obtain ⟨_, _, hfinish⟩ := finish_eq now false t
      dsimp only
      rw [hfinish]
      exact hdone outcome' rfl
    · cases h
    · cases h

theorem consistent_fresh (id : SessionId) (settings : Settings) (source : Source) :
    (fresh id settings).Consistent settings source where
  settings_eq := rfl
  source_eq _ hsource := by cases hsource
  recorded _ := rfl
  current hrunning := by cases hrunning

/-- A rerun that is carried out keeps a session up to date. -/
theorem UpToDate.of_done {outcome : RerunOutcome} (h : UpToDate settings source p g₀ s)
    (hrerun : s.rerun now origin changes = (.done outcome, s₁)) (hforgets : ¬ s.Forgets changes)
    (hapart : Apart s₁.view.shown) : UpToDate settings source p g₀ s₁ := by
  have hup := InStep.rerun h now origin changes
  rw [hrerun] at hup
  exact hup (by rintro ⟨⟩) hforgets hapart

theorem WholeUpToDate.of_done {outcome : RerunOutcome} (h : WholeUpToDate source script s)
    (hrunning : s.state = .running) (hrerun : s.rerun now origin changes = (.done outcome, s₁)) :
    WholeUpToDate source script s₁ := by
  have hup := h.rerun now origin changes
  rw [hrerun] at hup
  refine hup.resolve_left fun herror => ?_
  cases herror.symm.trans (state_of_done_rerun hrunning hrerun)

namespace Consistent

theorem observe (h : s.Consistent settings source) (audience : Audience) :
    ({ s with audience } : Session).Consistent settings source where
  settings_eq := h.settings_eq
  source_eq := h.source_eq
  recorded := h.recorded
  current hrunning := by
    rcases h.current hrunning with ⟨p, g₀, hup⟩ | ⟨script, hup⟩
    · exact Or.inl ⟨p, g₀, { hup with }⟩
    · exact Or.inr ⟨script, { hup with }⟩

/-- Loading a script keeps a session consistent unless it breaks off. -/
theorem load (h : s.Consistent settings source) (htimeout : UnlimitedIfSplit settings)
    (hsteady : SteadyIfSplit settings source) (now : Instant)
    (hcrashed : (s.load now source).1 ≠ .crashed) (hapart : Apart (s.load now source).2.view.shown) :
    (s.load now source).2.Consistent settings source where
  settings_eq := (Keeps.load now source s).settings_eq.trans h.settings_eq
  source_eq source' hsource' := by
    rw [(Keeps.load now source s).source_eq] at hsource'
    exact (Option.some.inj hsource').symm
  recorded := h.recorded.load now source
  current hrunning := by
    cases hreply : (s.load now source).1 with
    | done =>
      cases hsplit : s.split? source with
      | some pg =>
        obtain ⟨p, g₀⟩ := pg
        have hincremental : settings.incremental = true :=
          h.settings_eq ▸ (split?_eq_some hsplit).1
        exact Or.inl ⟨p, g₀, upToDate_load now hsplit h.settings_eq
          (nodes_of_split? h.settings_eq (htimeout hincremental) hsteady hsplit) hreply hapart⟩
      | none => exact Or.inr (wholeUpToDate_load now hsplit hreply)
    | refused e => cases (state_of_refused_load hreply).symm.trans hrunning
    | crashed => exact absurd hreply hcrashed

theorem start (h : s.Consistent settings source) (htimeout : UnlimitedIfSplit settings)
    (hsteady : SteadyIfSplit settings source) (now : Instant)
    (hcrashed : (s.start now source).1 ≠ .crashed)
    (hapart : Apart (s.start now source).2.view.shown) :
    (s.start now source).2.Consistent settings source := by
  rw [Session.start] at hcrashed hapart ⊢
  split
  · rename_i hinitial
    rw [if_pos hinitial] at hcrashed hapart
    exact h.load htimeout hsteady now hcrashed hapart
  · exact h

theorem restart (h : s.Consistent settings source) (htimeout : UnlimitedIfSplit settings)
    (hsteady : SteadyIfSplit settings source) (now : Instant)
    (hcrashed : (s.restart now).1 ≠ .crashed) (hapart : Apart (s.restart now).2.view.shown) :
    (s.restart now).2.Consistent settings source := by
  rw [Session.restart] at hcrashed hapart ⊢
  cases hsource : s.source with
  | some source' =>
    obtain rfl := h.source_eq source' hsource
    rw [hsource] at hcrashed hapart
    exact h.load htimeout hsteady now hcrashed hapart
  | none => exact h

theorem stop (h : s.Consistent settings source) : s.stop.2.Consistent settings source := by
  rw [Session.stop]
  split
  · exact ⟨h.settings_eq, h.source_eq, h.recorded, fun hrunning => by cases hrunning⟩
  · exact h

theorem rerun (h : s.Consistent settings source) (now : Instant) (origin : Option ObserverId)
    (changes : Table UnitId Value) (hcrashed : (s.rerun now origin changes).1 ≠ .crashed)
    (hforgets : ¬ s.Forgets changes)
    (hapart : Apart (s.rerun now origin changes).2.view.shown) :
    (s.rerun now origin changes).2.Consistent settings source := by
  obtain ⟨hsettings, hsource⟩ := settings_rerun now origin changes s
  refine ⟨hsettings.trans h.settings_eq, fun source' hsource' => ?_,
    h.recorded.rerun now origin changes, fun hrunning => ?_⟩
  · exact h.source_eq source' (hsource.symm.trans hsource')
  · have hbefore : s.state = .running := by
      rcases rerun_cases now origin changes s with heq | ⟨hbefore, -⟩
      · rwa [heq] at hrunning
      · exact hbefore
    rcases h.current hbefore with ⟨p, g₀, hup⟩ | ⟨script, hup⟩
    · exact Or.inl ⟨p, g₀, InStep.rerun hup now origin changes hcrashed hforgets hapart⟩
    · refine Or.inr ⟨script, (hup.rerun now origin changes).resolve_left fun herror => ?_⟩
      cases herror.symm.trans hrunning

end Consistent

/-- **What a session displays fits its inputs**, whatever requests have led to it. -/
theorem Undisturbed.consistent (h : Undisturbed id settings source s)
    (htimeout : UnlimitedIfSplit settings) (hsteady : SteadyIfSplit settings source) :
    s.Consistent settings source := by
  induction h with
  | fresh => exact consistent_fresh id settings source
  | observe audience _ ih => exact ih.observe audience
  | start now _ hcrashed hapart ih => exact ih.start htimeout hsteady now hcrashed hapart
  | restart now _ hcrashed hapart ih => exact ih.restart htimeout hsteady now hcrashed hapart
  | stop _ ih => exact ih.stop
  | rerun now origin changes _ hcrashed hforgets hapart ih =>
    exact ih.rerun now origin changes hcrashed hforgets hapart

/-! ## What inputs determine -/

/-- A session that is up to date displays what any walk leaves that settles its nodes under its
inputs. -/
theorem UpToDate.rows_eq_of_settled {g' : Graph} {shown : NodeId → List OutputUnit}
    (h : UpToDate settings source p g₀ s) (hlater : g₀.Later g') (hg' : g'.WellFormed)
    (hlocal : g'.Local) (htimeout : g'.nodeTimeout = none) (hsettled : g'.Settled s.inputs shown) :
    OutputUnit.pack (g'.order.flatMap shown) = s.rows := by
  have htimeout₀ : g₀.nodeTimeout = none := h.nodes.timeout_eq.trans h.nodes.timeout
  have halike : g'.Alike s.graph := (Graph.Alike.of_later hlater h.nodes.isLocal htimeout₀).symm.trans
    (.of_later h.later h.nodes.isLocal htimeout₀)
  rw [h.rows_eq, halike.order_eq hg' h.wellFormed]
  refine congrArg OutputUnit.pack (List.flatMap_congr fun id hid => Eq.symm ?_)
  exact halike.shown_eq hg' h.wellFormed hlocal htimeout hsettled h.settled (hg'.mem_order_iff.1 hid)

/-- **What a rerun displays is determined by its inputs**: if another session is up to date under
them, whose script is split into the same nodes, the rerun is carried out and displays the same,
unless it forgets a node. -/
theorem UpToDate.rerun_of_inputs (h : UpToDate settings source p g₀ s)
    (h₂ : UpToDate settings source p g₀ s₂) (hrunning : s.state = .running)
    (hdebounced : s.isDebounced now = false)
    (hinputs : (s.takeUp origin changes).inputs = s₂.inputs) (hforgets : ¬ s.Forgets changes) :
    ∃ outcome, (s.rerun now origin changes).1 = .done outcome ∧
      (s.rerun now origin changes).2.rows = s₂.rows := by
  by_cases haccepted : s.accepted changes = []
  · rw [rerun_of_not_accepted hrunning hdebounced haccepted]
    refine ⟨.unchanged, rfl, h.rows_eq.trans ?_⟩
    rw [inputs_takeUp_of_not_accepted haccepted] at hinputs
    exact h₂.rows_eq_of_settled h.later h.wellFormed h.isLocal h.nodeTimeout_eq (hinputs ▸ h.settled)
  obtain ⟨memo, inputs, audience, htake, hothers⟩ := takeUp_eq origin changes s
  rw [htake] at hinputs
  obtain rfl : inputs = s₂.inputs := hinputs
  rw [rerun_eq hrunning hdebounced haccepted, htake]
  set t : Session := { s with inputMemo := memo, inputs := s₂.inputs, audience } with ht
  have hstep : InStep settings source p g₀ s.inputs t := InStep.take h memo audience
  have htimeout₀ : g₀.nodeTimeout = none := h.nodes.timeout_eq.trans h.nodes.timeout
  have halike : g₀.Alike s₂.graph := .of_later h₂.later h.nodes.isLocal htimeout₀
  by_cases haffected : t.graph.affectedBy (Table.keys (s.accepted changes)) = []
  · -- All nodes are run, with nothing on view before.
    obtain ⟨r, hr⟩ := Option.isSome_iff_exists.1 (Graph.execute_isSome halike h.nodes.wellFormed
      h₂.wellFormed h.nodes.isLocal htimeout₀ h₂.settled)
    have hexecute : g₀.execute none s₂.inputs = (some r, (g₀.execute none s₂.inputs).2) :=
      Prod.ext hr rfl
    generalize (g₀.execute none s₂.inputs).2 = g' at hexecute
    obtain ⟨hg', hlocal, htimeout, hsettled⟩ := Graph.execute_all_settled h.nodes.wellFormed
      h.nodes.isLocal htimeout₀ View.empty.shown hexecute
    have hrun := runNodes_eq (s := { t with graph := g₀, view := .empty }) hexecute
    rw [runAgain_of_unaffected hstep.mode_eq haffected,
      runCold_of_split hstep.split_eq hstep.program_eq hstep.later, hrun]
    refine ⟨.fullRerun, rfl, ?_⟩
    refine (rows_finish_walk (t := { t with graph := g₀, view := .empty }) h.nodes.wellFormed
      View.distinct_empty (List.forall_mem_nil _) hexecute hg' now false).trans ?_
    exact h₂.rows_eq_of_settled (Graph.later_execute hexecute) hg' hlocal htimeout hsettled
  · -- The nodes are run that are affected.
    have hforgets : ¬ t.graph.Forgets s.inputs (Table.keys (s.accepted changes)) := fun hgraph =>
      hforgets ⟨h.mode_eq, haffected, hgraph⟩
    have halike' : t.graph.Alike s₂.graph :=
      (Graph.Alike.of_later h.later h.nodes.isLocal htimeout₀).symm.trans halike
    obtain ⟨r, hr⟩ := Option.isSome_iff_exists.1 (hstep.settled.rerun_isSome hstep.wellFormed
      hstep.isLocal hstep.nodeTimeout_eq (fun _ _ => hstep.heeds) hstep.credits hothers hforgets
      halike' h₂.wellFormed h₂.settled)
    have hexecute : t.graph.execute (some (t.graph.affectedBy (Table.keys (s.accepted changes))))
        t.inputs = (some r, (t.graph.execute
          (some (t.graph.affectedBy (Table.keys (s.accepted changes)))) t.inputs).2) :=
      Prod.ext hr rfl
    generalize (t.graph.execute (some (t.graph.affectedBy (Table.keys (s.accepted changes))))
      t.inputs).2 = g' at hexecute
    obtain ⟨hg', hlocal, htimeout, hsettled⟩ := hstep.settled.rerun hstep.wellFormed hstep.isLocal
      hstep.nodeTimeout_eq (fun _ _ => hstep.heeds) hstep.credits hothers hforgets hexecute
    rw [runAgain_of_affected hstep.mode_eq haffected, runNodes_eq hexecute]
    refine ⟨.incremental _, rfl, ?_⟩
    refine (rows_finish_walk hstep.wellFormed hstep.distinct hstep.mem_ids hexecute hg' now
      false).trans ?_
    exact h₂.rows_eq_of_settled (h.later.trans (Graph.later_execute hexecute)) hg' hlocal htimeout
      hsettled

/-- **What a rerun of a whole script displays is determined by its inputs**: if the script shows some
units under them, the rerun is carried out and displays these. -/
theorem WholeUpToDate.rerun_of_interpret {units : List OutputUnit}
    (h : WholeUpToDate source script s) (hrunning : s.state = .running)
    (hdebounced : s.isDebounced now = false)
    (hinterpret : script.interpret source.file (s.takeUp origin changes).inputs
      s.settings.recursionLimit = .ok units) :
    ∃ outcome, (s.rerun now origin changes).1 = .done outcome ∧
      (s.rerun now origin changes).2.rows = OutputUnit.pack units := by
  by_cases haccepted : s.accepted changes = []
  · rw [rerun_of_not_accepted hrunning hdebounced haccepted]
    obtain ⟨units', hinterpret', hrows'⟩ := h.rows_eq
    rw [inputs_takeUp_of_not_accepted haccepted, hinterpret'] at hinterpret
    exact ⟨.unchanged, rfl, hrows'.trans (congrArg _ (Except.ok.inj hinterpret))⟩
  obtain ⟨memo, inputs, audience, htake, -⟩ := takeUp_eq origin changes s
  rw [rerun_eq hrunning hdebounced haccepted]
  rw [htake] at hinterpret ⊢
  set t : Session := { s with inputMemo := memo, inputs, audience } with ht
  obtain ⟨audience', hrun⟩ := runWhole_eq (s := t) h.script_eq h.source_eq hinterpret
  have hagain : t.runAgain (Table.keys (s.accepted changes))
      = (t.runWhole.1.map fun _ => .fullRerun, t.runWhole.2) := by
    rw [Session.runAgain, show t.mode = .fullRerun from h.mode_eq]
  rw [hagain, hrun]
  exact ⟨.fullRerun, rfl,
    rows_finish_whole now false (t := { t with audience := audience' }) h.ids_eq h.wellFormed units⟩

/-! ## Batches -/

/-- Values that were dropped or stored in two batches have forms that agree with those of one. -/
theorem sameForms_of_takeUp (h : s.Recorded) (hc₁ : (Table.keys c₁).Nodup)
    (hc₂ : (Table.keys c₂).Nodup) (h₁ : (s.takeUp origin c₁).Keeps s₁)
    (h₂ : (s₁.takeUp origin c₂).Keeps s₂) (h₃ : (s.takeUp origin (Table.merge c₁ c₂)).Keeps s₃) :
    SameForms s₂.inputs s₃.inputs := by
  have hrecorded₁ : s₁.Recorded := (h.takeUp origin c₁).keep h₁
  have hmerged : (Table.keys (Table.merge c₁ c₂)).Nodup := Table.nodup_keys_merge hc₁ c₂
  -- The form that was offered last is what both stand for.
  have hagree : ∀ {unit : UnitId} {v : Value} {form : Json},
      (s₁.takeUp origin c₂).inputMemo.get? unit = some form → form.StandsFor v.toJson →
      (unit, v) ∈ Table.merge c₁ c₂ → Option.Rel Json.Agree
        ((s₁.takeUp origin c₂).inputMemo.get? unit)
        ((s.takeUp origin (Table.merge c₁ c₂)).inputMemo.get? unit) := by
    intro unit v form hform hstands hv
    obtain ⟨form', hform', hstands'⟩ := exists_form_takeUp origin hmerged s hv
    rw [hform, hform']
    exact .some ⟨_, hstands, hstands'⟩
  intro unit
  rw [← ((hrecorded₁.takeUp origin c₂).keep h₂) unit, ← ((h.takeUp origin _).keep h₃) unit,
    h₂.inputMemo_eq, h₃.inputMemo_eq]
  by_cases hunit₂ : unit ∈ Table.keys c₂
  · obtain ⟨v, hv⟩ := Table.exists_get?_of_mem_keys hunit₂
    have hv := Table.mem_of_get? hv
    obtain ⟨form, hform, hstands⟩ := exists_form_takeUp origin hc₂ s₁ hv
    exact hagree hform hstands (Table.mem_of_get? (Table.get?_merge_of_mem hc₂ hv))
  have hkept : (s₁.takeUp origin c₂).inputMemo.get? unit
      = (s.takeUp origin c₁).inputMemo.get? unit := by
    rw [get?_inputMemo_takeUp origin s₁ hunit₂, h₁.inputMemo_eq]
  by_cases hunit₁ : unit ∈ Table.keys c₁
  · obtain ⟨v, hv⟩ := Table.exists_get?_of_mem_keys hunit₁
    obtain ⟨form, hform, hstands⟩ := exists_form_takeUp origin hc₁ s (Table.mem_of_get? hv)
    refine hagree (hkept.trans hform) hstands (Table.mem_of_get? ?_)
    rw [Table.get?_merge_of_not_mem hunit₂, hv]
  · have hunit₃ : unit ∉ Table.keys (Table.merge c₁ c₂) := fun hmem =>
      (Table.mem_keys_merge.1 hmem).elim hunit₁ hunit₂
    rw [hkept, get?_inputMemo_takeUp origin s hunit₁, get?_inputMemo_takeUp origin s hunit₃]
    cases s.inputMemo.get? unit with
    | none => exact .none
    | some form => exact .some ⟨form, Or.inl rfl, Or.inl rfl⟩

/-- Where values with the same form are the same, two batches store what one stores. -/
theorem inputs_takeUp_merge (h : s.Recorded) (hc₁ : (Table.keys c₁).Nodup)
    (hfaithful : Faithful (s.inputs ++ c₁ ++ c₂)) (h₁ : (s.takeUp origin c₁).Keeps s₁)
    (h₂ : (s₁.takeUp origin c₂).Keeps s₂) :
    (s.takeUp origin (Table.merge c₁ c₂)).inputs = s₂.inputs := by
  have hrecorded₁ : s₁.Recorded := (h.takeUp origin c₁).keep h₁
  have hinputs₁ : s₁.inputs = Table.merge s.inputs c₁ := h₁.inputs_eq.trans
    (h.inputs_takeUp origin (hfaithful.mono fun e he => List.mem_append_left _ he))
  have hinputs₂ : s₂.inputs = Table.merge s₁.inputs c₂ := by
    refine h₂.inputs_eq.trans (hrecorded₁.inputs_takeUp origin (hfaithful.mono fun e he => ?_))
    rw [hinputs₁] at he
    simp only [List.mem_append] at he ⊢
    exact he.imp_left Table.mem_of_mem_merge
  have hfaithful₃ : Faithful (s.inputs ++ Table.merge c₁ c₂) := hfaithful.mono fun e he => by
    simp only [List.mem_append] at he ⊢
    rw [or_assoc]
    exact he.imp_right Table.mem_of_mem_merge
  rw [h.inputs_takeUp origin hfaithful₃, hinputs₂, hinputs₁, Table.merge_merge _ hc₁]

/-- **Reruns that are carried out together do what they do one after the other.**  If a session that
reacts to inputs carries out two reruns from one origin, then one rerun with both batches leaves the
same units with values, whose forms agree.  If values of a unit with the same form are the same, it is
carried out, stores the same inputs, and displays the same.  There must be no debouncing and no
timeout, in a script that is split into nodes every name has to stand for the same at all times, and
no rerun may forget a node or show units with the same id at two nodes. -/
theorem coalescing_is_transparent (h : Undisturbed id settings source s)
    (htimeout : UnlimitedIfSplit settings) (hsteady : SteadyIfSplit settings source)
    (hdebounce : settings.debounce.nanos.val = 0) (hrunning : s.state = .running)
    {now₁ now₂ : Instant} {outcome₁ outcome₂ : RerunOutcome}
    (h₁ : s.rerun now₁ origin c₁ = (.done outcome₁, s₁))
    (h₂ : s₁.rerun now₂ origin c₂ = (.done outcome₂, s₂)) (hc₁ : (Table.keys c₁).Nodup)
    (hc₂ : (Table.keys c₂).Nodup) (hforgets₁ : ¬ s.Forgets c₁)
    (hforgets₂ : ¬ s₁.Forgets c₂) (hapart₁ : Apart s₁.view.shown) (hapart₂ : Apart s₂.view.shown)
    (now₃ : Instant) (hforgets : ¬ s.Forgets (Table.merge c₁ c₂)) :
    SameForms s₂.inputs (s.rerun now₃ origin (Table.merge c₁ c₂)).2.inputs ∧
      (Faithful (s.inputs ++ c₁ ++ c₂) →
        (∃ outcome, (s.rerun now₃ origin (Table.merge c₁ c₂)).1 = .done outcome) ∧
        (s.rerun now₃ origin (Table.merge c₁ c₂)).2.inputs = s₂.inputs ∧
        (s.rerun now₃ origin (Table.merge c₁ c₂)).2.rows = s₂.rows) := by
  have hs := h.consistent htimeout hsteady
  have hdebounced₃ := isDebounced_eq_false (hs.settings_eq ▸ hdebounce) now₃
  have hrunning₁ := state_of_done_rerun hrunning h₁
  have hs₁ : s₁.Consistent settings source := by
    have hs₁ := hs.rerun now₁ origin c₁
    rw [h₁] at hs₁
    exact hs₁ (by rintro ⟨⟩) hforgets₁ hapart₁
  have hkeeps₁ : (s.takeUp origin c₁).Keeps s₁ := by
    have hkeeps := keeps_rerun_of_running hrunning
      (isDebounced_eq_false (hs.settings_eq ▸ hdebounce) now₁) origin c₁
    rwa [h₁] at hkeeps
  have hkeeps₂ : (s₁.takeUp origin c₂).Keeps s₂ := by
    have hkeeps := keeps_rerun_of_running hrunning₁
      (isDebounced_eq_false (hs₁.settings_eq ▸ hdebounce) now₂) origin c₂
    rwa [h₂] at hkeeps
  have hkeeps₃ := keeps_rerun_of_running hrunning hdebounced₃ origin (Table.merge c₁ c₂)
  refine ⟨sameForms_of_takeUp hs.recorded hc₁ hc₂ hkeeps₁ hkeeps₂ hkeeps₃, fun hfaithful => ?_⟩
  have hinputs := inputs_takeUp_merge hs.recorded hc₁ hfaithful hkeeps₁ hkeeps₂
  obtain ⟨outcome, hdone, hrows⟩ : ∃ outcome,
      (s.rerun now₃ origin (Table.merge c₁ c₂)).1 = .done outcome ∧
        (s.rerun now₃ origin (Table.merge c₁ c₂)).2.rows = s₂.rows := by
    rcases hs.current hrunning with ⟨p, g₀, hup⟩ | ⟨script, hup⟩
    · have hup₂ := (hup.of_done h₁ hforgets₁ hapart₁).of_done h₂ hforgets₂ hapart₂
      exact hup.rerun_of_inputs hup₂ hrunning hdebounced₃ hinputs hforgets
    · obtain ⟨units, hinterpret, hrows⟩ := ((hup.of_done hrunning h₁).of_done hrunning₁ h₂).rows_eq
      have hsettings : s₂.settings = s.settings := by
        rw [hkeeps₂.settings_eq, (settings_takeUp origin c₂ s₁).1, hs₁.settings_eq, hs.settings_eq]
      rw [hrows]
      rw [← hinputs, hsettings] at hinterpret
      exact hup.rerun_of_interpret hrunning hdebounced₃ hinterpret
  exact ⟨⟨outcome, hdone⟩, hkeeps₃.inputs_eq.trans hinputs, hrows⟩

/-! ## A tick and a change that affects nothing -/

/-- The settings that are taken if none are set, without debouncing. -/
def undelayed : Settings := { Settings.standard with debounce := .ofMillis 0 }

/-- A session that has not been started, without debouncing. -/
def prompt : Session := .fresh ⟨"main"⟩ undelayed

/-- A change of a unit that no node shows. -/
def stray : Table UnitId Value := [(⟨"nobody"⟩, .bool true)]

/-- The tick runs both nodes again, and so does a rerun of all nodes after the stray change, for which
nobody is on record.  No unit is shown twice at the end of it. -/
def TicksAndStrays (g : Graph) : Prop :=
  (prompt.beforeTick g).1.settle.toOption.isSome ∧ (prompt.boxed g).Ticks ∧
    Table.keys ((prompt.boxed g).ticked.accepted stray) = [⟨"nobody"⟩] ∧
    ((prompt.boxed g).ticked.takeUp none stray).mode = .incremental ∧
    ((prompt.boxed g).ticked.takeUp none stray).graph.producer? ⟨"nobody"⟩ = none ∧
    ((prompt.boxed g).ticked.takeUp none stray).runCold.1.settle.toOption.isSome ∧
    ((prompt.boxed g).ticked.takeUp none stray).runCold.2.view.KeepsApart

instance (g : Graph) : Decidable (TicksAndStrays g) := inferInstanceAs (Decidable (_ ∧ _))

theorem exists_ticksAndStrays :
    ∃ g, prompt.split? tickSource = some (tickProgram, g) ∧ TicksAndStrays g :=
  exists_split?_of_install prompt rfl (by decide +kernel)

/-- The theorem applies to a box that is ticked, when another change affects nothing.  One after the
other the changes run the nodes that are affected, and then all nodes. -/
theorem coalescing_is_transparent_of_tick : ∃ s s₁ s₂, Undisturbed ⟨"main"⟩ undelayed tickSource s ∧
    s.rerun ⟨10 ^ 9⟩ none tick = (.done (.incremental [boxNode, textNode]), s₁) ∧
    s₁.rerun ⟨10 ^ 9⟩ none stray = (.done .fullRerun, s₂) ∧
    ∃ outcome s₃, s.rerun ⟨10 ^ 9⟩ none (Table.merge tick stray) = (.done outcome, s₃) ∧
      s₃.inputs = s₂.inputs ∧ s₃.rows = s₂.rows := by
  obtain ⟨g, hsplit, hdone, hticks, htaken, hmode, hproducer, hcold, hapart₂⟩ := exists_ticksAndStrays
  have h₁ := hticks.rerun_eq
  have hforgets := hticks.not_forgets
  obtain ⟨hapart, -, hrunning, -, -, -, -, -, -, -, hapart₁, -⟩ := hticks
  have hload := load_eq_boxed hsplit hdone
  have hstarted : Undisturbed ⟨"main"⟩ undelayed tickSource (prompt.boxed g) := by
    have hstart : (fresh ⟨"main"⟩ undelayed).start ⟨0⟩ tickSource = (.done (), prompt.boxed g) :=
      (if_pos rfl).trans hload
    have h : _ → _ → Undisturbed ⟨"main"⟩ undelayed tickSource _ := Undisturbed.start ⟨0⟩ .fresh
    rw [hstart] at h
    exact h (by rintro ⟨⟩) hapart.apart
  have hrunning₁ := state_of_done_rerun hrunning h₁
  have hkeeps := Keeps.load ⟨0⟩ tickSource prompt
  rw [hload] at hkeeps
  have hdebounced₁ : (prompt.boxed g).ticked.isDebounced ⟨10 ^ 9⟩ = false := by
    have hsettings := (settings_rerun ⟨10 ^ 9⟩ none tick (prompt.boxed g)).1
    rw [h₁] at hsettings
    refine isDebounced_eq_false ?_ _
    rw [hsettings, hkeeps.settings_eq]
    rfl
  have hview : (prompt.boxed g).ticked.view = (prompt.boxed g).afterTick.2.view := by
    obtain ⟨_, _, hfinish⟩ := finish_eq ⟨10 ^ 9⟩ false (prompt.boxed g).afterTick.2
    rw [ticked, hfinish]
  -- Nobody is on record for the stray change, so all nodes are run.
  have haffected : ((prompt.boxed g).ticked.takeUp none stray).graph.affectedBy [⟨"nobody"⟩] = [] := by
    rw [Graph.affectedBy, List.filterMap_cons, hproducer]
    exact Graph.reach.eq_1 _ _
  have h₂ : (prompt.boxed g).ticked.rerun ⟨10 ^ 9⟩ none stray = (.done .fullRerun,
      ((prompt.boxed g).ticked.takeUp none stray).runCold.2.finish ⟨10 ^ 9⟩ false) := by
    obtain ⟨_, hcold⟩ := Reply.exists_done hcold
    have haccepted : (prompt.boxed g).ticked.accepted stray ≠ [] := fun hnone => by
      rw [hnone] at htaken
      cases htaken
    rw [rerun_eq hrunning₁ hdebounced₁ haccepted, htaken, runAgain_of_unaffected hmode haffected, hcold]
    rfl
  have hforgets₂ : ¬ (prompt.boxed g).ticked.Forgets stray := by
    obtain ⟨_, _, _, htake, -⟩ := takeUp_eq none stray (prompt.boxed g).ticked
    rw [htake] at haffected
    rintro ⟨-, hsome, -⟩
    rw [htaken] at hsome
    exact hsome haffected
  obtain ⟨_, _, hfinish⟩ := finish_eq ⟨10 ^ 9⟩ false ((prompt.boxed g).ticked.takeUp none stray).runCold.2
  obtain ⟨-, hsame⟩ := coalescing_is_transparent hstarted (fun _ => rfl)
    (fun _ script p hscript _ => by
      obtain rfl := Except.ok.inj (ofSource_tickSource.symm.trans hscript)
      exact Script.steady_of_functions_eq_nil rfl)
    rfl hrunning h₁ h₂ (List.nodup_singleton _) (List.nodup_singleton _) (hforgets tick) hforgets₂
    (by rw [hview]; exact hapart₁.apart) (by rw [hfinish]; exact hapart₂.apart) ⟨10 ^ 9⟩
    (hforgets _)
  obtain ⟨⟨outcome, hdone₃⟩, hstored, hrows⟩ := hsame (.of_nodup (by rw [hkeeps.inputs_eq]; decide))
  exact ⟨_, _, _, hstarted, h₁, h₂, outcome, _, Prod.ext hdone₃ rfl, hstored, hrows⟩

/-! ## Values with the same form -/

/-- What is displayed depends on the order of the entries of the value that is picked. -/
def pickSource : Source := ⟨"app.tr",
  "x = selectbox(\"S\", [\x7b\"a\": \"\", \"b\": \"\"\x7d])\n" ++
  "for k in x:\n    if k == \"a\":\n        text(k)\n    else:\n        alert(k)\n"⟩

/-- The script that the text spells. -/
def pickScript : Script := ⟨[
  .assign ⟨1, 1⟩ "x" (.call ⟨1, 5⟩ "selectbox" [.literal ⟨1, 15⟩ (.text "S"),
    .list ⟨1, 20⟩ [.dict ⟨1, 21⟩ [(.literal ⟨1, 22⟩ (.text "a"), .literal ⟨1, 27⟩ (.text "")),
      (.literal ⟨1, 31⟩ (.text "b"), .literal ⟨1, 36⟩ (.text ""))]]] []),
  .loop ⟨2, 1⟩ "k" (.name ⟨2, 10⟩ "x") [
    .choose ⟨3, 5⟩
      [(.binary ⟨3, 8⟩ .eq (.name ⟨3, 8⟩ "k") (.literal ⟨3, 13⟩ (.text "a")),
        [.expr ⟨4, 9⟩ (.call ⟨4, 9⟩ "text" [.name ⟨4, 14⟩ "k"] [])])]
      [.expr ⟨6, 9⟩ (.call ⟨6, 9⟩ "alert" [.name ⟨6, 15⟩ "k"] [])]]]⟩

/-- The unit in which a value is picked. -/
def pickUnit : UnitId := ⟨"selectbox-00a5cb4f"⟩

/-- The value is picked. -/
def pick : Table UnitId Value := [(pickUnit, .dict [("a", .text ""), ("b", .text "")])]

/-- It is picked with its entries in another order, which has the same form. -/
def pickAgain : Table UnitId Value := [(pickUnit, .dict [("b", .text ""), ("a", .text "")])]

/-- Settings without debouncing that have scripts run as a whole. -/
def undelayedWhole : Settings := { wholeSettings with debounce := .ofMillis 0 }

theorem exists_interpret_pickScript (inputs : InputTable) (kinds : List String)
    (h : (pickScript.interpret "app.tr" inputs 64).toOption.map (List.map OutputUnit.kind)
      = some kinds) :
    ∃ units, pickScript.interpret "app.tr" inputs 64 = .ok units ∧
      units.map OutputUnit.kind = kinds := by
  cases hunits : pickScript.interpret "app.tr" inputs 64 with
  | error e =>
    rw [hunits] at h
    cases h
  | ok units =>
    rw [hunits] at h
    exact ⟨units, rfl, Option.some.inj h⟩

/-- A script that is run as a whole can be started if it can be interpreted. -/
theorem exists_start_whole (now : Instant) {units : List OutputUnit} (hinitial : s.state = .initial)
    (hsplit : s.split? source = none) (hparse : Script.ofSource source.text = .ok script)
    (hinterpret : script.interpret source.file s.inputs s.settings.recursionLimit = .ok units) :
    ∃ s', s.start now source = (.done (), s') ∧ s'.state = .running ∧
      WholeUpToDate source script s' := by
  obtain ⟨audience, hrun⟩ := runWhole_eq (s := s.whole source script) rfl rfl hinterpret
  refine ⟨_, by rw [start, if_pos hinitial, load_eq_of_whole now hsplit hparse, hrun], ?_,
    wholeUpToDate_finish (t := { s.whole source script with audience }) rfl hparse rfl rfl hsplit rfl
      (Graph.wellFormed_empty _ _) hinterpret now true⟩
  obtain ⟨_, _, hfinish⟩ := finish_eq now true { s.whole source script with
    audience, view := View.empty.replace View.wholeScript units }
  rw [hfinish]
  rfl

/-- **Batches that are carried out together may display something else** if two values have the same
form: one after the other the second one is dropped, and together it is the first one. -/
theorem coalescing_keeps_dropped_value :
    ¬ ∀ (id : SessionId) (settings : Settings) (s s₁ s₂ : Session) (origin : Option ObserverId)
        (c₁ c₂ : Table UnitId Value) (now₁ now₂ now₃ : Instant) (outcome₁ outcome₂ : RerunOutcome),
      Reached id settings s → settings.debounce.nanos.val = 0 → s.state = .running →
      (Table.keys c₁).Nodup → (Table.keys c₂).Nodup →
      s.rerun now₁ origin c₁ = (.done outcome₁, s₁) →
      s₁.rerun now₂ origin c₂ = (.done outcome₂, s₂) →
      ∃ outcome s₃, s.rerun now₃ origin (Table.merge c₁ c₂) = (.done outcome, s₃) ∧
        SameForms s₂.inputs s₃.inputs ∧ s₃.rows = s₂.rows := by
  intro hmergeAgrees
  let untold : Session := fresh ⟨"main"⟩ undelayedWhole
  have hparse : Script.ofSource pickSource.text = .ok pickScript := by cbv
  obtain ⟨_, hinterpret, -⟩ := exists_interpret_pickScript [] ["selectbox", "text", "alert"]
    (by decide +kernel)
  obtain ⟨units₁, hinterpret₁, hkinds₁⟩ := exists_interpret_pickScript pick
    ["selectbox", "text", "alert"] (by decide +kernel)
  obtain ⟨units₂, hinterpret₂, hkinds₂⟩ := exists_interpret_pickScript pickAgain
    ["selectbox", "alert", "text"] (by decide +kernel)
  obtain ⟨s, hstart, hrunning, hup⟩ := exists_start_whole (s := untold) ⟨0⟩ rfl rfl hparse hinterpret
  have hreached : Reached ⟨"main"⟩ undelayedWhole s := by
    have hreached : _ → Reached ⟨"main"⟩ undelayedWhole _ := Reached.start ⟨0⟩ pickSource .fresh
    rw [hstart] at hreached
    exact hreached (by rintro ⟨⟩)
  have hkeeps := Keeps.load ⟨0⟩ pickSource untold
  rw [(if_pos rfl).symm.trans hstart] at hkeeps
  have hdebounced : s.isDebounced ⟨0⟩ = false := by
    refine isDebounced_eq_false ?_ ⟨0⟩
    rw [hkeeps.settings_eq]
    rfl
  have hinputs : ∀ changes, (s.takeUp none changes).inputs
      = Table.merge [] (Memo.empty.sift changeForm changes).1 := fun changes => by
    rw [(inputs_takeUp_eq none changes s).1, hkeeps.inputs_eq]
    exact congrArg (fun memo => Table.merge [] (Memo.sift changeForm changes memo).1)
      hkeeps.inputMemo_eq
  have hrerun : ∀ changes inputs {units},
      Table.merge [] (Memo.empty.sift changeForm changes).1 = inputs →
      pickScript.interpret "app.tr" inputs 64 = .ok units →
      ∃ outcome, (s.rerun ⟨0⟩ none changes).1 = .done outcome ∧
        (s.rerun ⟨0⟩ none changes).2.rows = OutputUnit.pack units := by
    intro changes inputs units hsift hinterpret
    refine hup.rerun_of_interpret hrunning hdebounced ?_
    rw [hinputs, hsift, hkeeps.settings_eq]
    exact hinterpret
  -- The first value is stored, and the second one is dropped.
  obtain ⟨outcome₁, hdone₁, hrows₁⟩ := hrerun pick pick rfl hinterpret₁
  have hkeeps₁ := keeps_rerun_of_running hrunning hdebounced none pick
  have h₁ : s.rerun ⟨0⟩ none pick = (.done outcome₁, (s.rerun ⟨0⟩ none pick).2) := Prod.ext hdone₁ rfl
  have hrunning₁ := state_of_done_rerun hrunning h₁
  generalize (s.rerun ⟨0⟩ none pick).2 = s₁ at h₁ hrows₁ hkeeps₁ hrunning₁
  have h₂ : s₁.rerun ⟨0⟩ none pickAgain = (.done .unchanged, s₁) := by
    refine rerun_of_not_accepted hrunning₁ ?_ ?_
    · refine isDebounced_eq_false ?_ ⟨0⟩
      rw [hkeeps₁.settings_eq, (settings_takeUp none pick s).1, hkeeps.settings_eq]
      rfl
    · rw [accepted, hkeeps₁.inputMemo_eq, (inputs_takeUp_eq none pick s).2, hkeeps.inputMemo_eq]
      rfl
  -- Together, the second value takes the place of the first one.
  obtain ⟨_, _, hrows₂⟩ := hrerun (Table.merge pick pickAgain) pickAgain rfl hinterpret₂
  obtain ⟨_, s₃, h₃, -, hrows⟩ := hmergeAgrees _ _ s s₁ s₁ none pick pickAgain ⟨0⟩ ⟨0⟩ ⟨0⟩ outcome₁
    .unchanged hreached rfl hrunning (List.nodup_singleton _) (List.nodup_singleton _) h₁ h₂
  rw [h₃] at hrows₂
  have hpacked := congrArg (fun rows => rows.flatten.map fun p => p.unit.kind)
    (hrows₂.symm.trans (hrows.trans hrows₁))
  simp only [OutputUnit.map_kind_pack, hkinds₁, hkinds₂] at hpacked
  exact absurd hpacked (by decide)

end Session

end ReactiveScript

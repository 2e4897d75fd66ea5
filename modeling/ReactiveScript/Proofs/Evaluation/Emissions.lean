import Mathlib.Data.List.Nodup
import ReactiveScript.Proofs.Evaluation.Companion

/-!
# Where units come from

The id of a unit is made from the site of the call that emitted it.  Surroundings see the site of
every unit, so they can be made to keep it, and this makes no difference to a run otherwise.  A call
is counted under the anchor whenever it is made, whether it emits a unit or fails; so under one anchor
no two units come from the same site.

* `Setting.recording` — the same setting, with emissions on record.
* `Expr.recording_eval`, `Stmt.recording_runAll` — the same run with emissions on record, and what is
  known of the record.
-/

set_option autoImplicit false

namespace ReactiveScript

variable {σ : Type}

/-- A unit with the site of the call that emitted it. -/
structure Emission where
  /-- The site. -/
  site : Site
  /-- The unit. -/
  unit : OutputUnit

/-- Surroundings that keep every emission on record, in order. -/
def Host.recording (h : Host σ) : Host (σ × List Emission) where
  global n s := ((h.global n s.1).1, (h.global n s.1).2, s.2)
  input id s := h.input id s.1
  emit site u s := (h.emit site u s.1, s.2 ++ [⟨site, u⟩])
  print line s := (h.print line s.1, s.2)
  expired s := ((h.expired s.1).1, (h.expired s.1).2, s.2)
  disorder := h.disorder

/-- The same setting, with every emission on record. -/
def Setting.recording (c : Setting σ) : Setting (σ × List Emission) :=
  ⟨c.file, c.limit, c.host.recording⟩

/-- The surroundings keep the units that they are told about, and no others. -/
structure Setting.Collects (c : Setting σ) (units : σ → List OutputUnit) : Prop where
  /-- They are asked for the value of a name. -/
  global : ∀ n s, units (c.host.global n s).2 = units s
  /-- They are asked for the time. -/
  expired : ∀ s, units (c.host.expired s).2 = units s
  /-- They are told about a line. -/
  print : ∀ line s, units (c.host.print line s) = units s
  /-- They are told about a unit. -/
  emit : ∀ site u s, units (c.host.emit site u s) = units s ++ [u]

/-! ## Records of emissions -/

/-- The emissions of a run under some anchors come from different sites, and every unit has the id
that belongs to its site. -/
structure Attributed (file : String) (anchors : List Span) (es : List Emission) : Prop where
  /-- No two come from the same site. -/
  nodup : (es.map Emission.site).Nodup
  /-- They come from the script. -/
  file_eq : ∀ e ∈ es, e.site.file = file
  /-- They are attributed to the anchors. -/
  mem_anchors : ∀ e ∈ es, e.site.anchor ∈ anchors
  /-- The units have the ids that belong to their sites. -/
  belongs : ∀ e ∈ es, e.unit.BelongsAt e.site

namespace Attributed

variable {file : String} {anchors anchors' : List Span} {es es' : List Emission}

theorem nil (file : String) (anchors : List Span) : Attributed file anchors [] :=
  ⟨List.nodup_nil, nofun, nofun, nofun⟩

theorem mono (h : Attributed file anchors es) (hsub : anchors ⊆ anchors') :
    Attributed file anchors' es :=
  ⟨h.nodup, h.file_eq, fun e he => hsub (h.mem_anchors e he), h.belongs⟩

/-- Emissions under different anchors come from different sites. -/
theorem append (h : Attributed file anchors es) (h' : Attributed file anchors' es')
    (hdisjoint : anchors.Disjoint anchors') : Attributed file (anchors ++ anchors') (es ++ es') := by
  refine ⟨?_, List.forall_mem_append.2 ⟨h.file_eq, h'.file_eq⟩, List.forall_mem_append.2
    ⟨fun e he => List.mem_append_left _ (h.mem_anchors e he),
      fun e he => List.mem_append_right _ (h'.mem_anchors e he)⟩,
    List.forall_mem_append.2 ⟨h.belongs, h'.belongs⟩⟩
  rw [List.map_append]
  refine h.nodup.append h'.nodup fun site hsite hsite' => ?_
  obtain ⟨e, he, rfl⟩ := List.mem_map.1 hsite
  obtain ⟨e', he', heq⟩ := List.mem_map.1 hsite'
  exact hdisjoint (h.mem_anchors e he) (heq ▸ h'.mem_anchors e' he')

end Attributed

/-- The emissions under the anchor of a machine are counted by it. -/
structure Counted (file : String) (m : Machine) (es : List Emission) : Prop
    extends Attributed file [m.anchor] es where
  /-- The counter of a call is beyond all of its units. -/
  below : ∀ e ∈ es, e.site.occurrence < m.occurrence e.site.call

namespace Counted

variable {file : String} {m m' : Machine} {es : List Emission}

theorem nil (file : String) (m : Machine) : Counted file m [] :=
  { Attributed.nil file [m.anchor] with below := nofun }

theorem still (h : Counted file m es) (hanchor : m'.anchor = m.anchor)
    (hoccurrences : m'.occurrences = m.occurrences) : Counted file m' es where
  nodup := h.nodup
  file_eq := h.file_eq
  mem_anchors := hanchor ▸ h.mem_anchors
  belongs := h.belongs
  below e he := by
    rw [Machine.occurrence, hoccurrences]
    exact h.below e he

/-- Counting a call moves its counter, and leaves the others alone. -/
theorem occurrence_count (m : Machine) (call call' : Span) : (m.count call).occurrence call'
    = if call = call' then m.occurrence call + 1 else m.occurrence call' := by
  rw [Machine.occurrence, Machine.count, Table.get?_put]
  split <;> rfl

theorem count (h : Counted file m es) (call : Span) : Counted file (m.count call) es :=
  { h.toAttributed with
    below := fun e he => by
      have hbelow := h.below e he
      rw [occurrence_count]
      split
      · rename_i heq
        rw [← heq] at hbelow
        exact Nat.lt_succ_of_lt hbelow
      · exact hbelow }

/-- The next unit of a call comes from a new site. -/
theorem emit (h : Counted file m es) (call : Span) {u : OutputUnit}
    (hu : u.BelongsAt ⟨file, m.anchor, call, m.occurrence call⟩) :
    Counted file (m.count call) (es ++ [⟨⟨file, m.anchor, call, m.occurrence call⟩, u⟩]) where
  nodup := by
    rw [List.map_append]
    refine h.nodup.append (List.nodup_singleton _) fun site hsite hnew => ?_
    obtain ⟨e, he, rfl⟩ := List.mem_map.1 hsite
    have hbelow := h.below e he
    rw [List.mem_singleton.1 hnew] at hbelow
    exact Nat.lt_irrefl _ hbelow
  file_eq := List.forall_mem_append.2 ⟨h.file_eq, List.forall_mem_singleton.2 rfl⟩
  mem_anchors := List.forall_mem_append.2
    ⟨h.mem_anchors, List.forall_mem_singleton.2 (List.mem_singleton_self _)⟩
  belongs := List.forall_mem_append.2 ⟨h.belongs, List.forall_mem_singleton.2 hu⟩
  below := by
    refine List.forall_mem_append.2 ⟨(h.count call).below, List.forall_mem_singleton.2 ?_⟩
    rw [occurrence_count, if_pos rfl]
    exact Nat.lt_succ_self _

end Counted

/-! ## Runs with emissions on record -/

section Recording

variable {c : Setting σ} {units : σ → List OutputUnit}

/-- A run, and the same run with emissions on record, after some earlier ones. -/
def Companion.recorder (h : c.Collects units) (earlier : List Emission) (anchor : Span) :
    Companion σ (σ × List Emission) where
  left := c
  right := c.recording
  near m s t := t.1 = s ∧ units s = t.2.map Emission.unit ∧ m.anchor = anchor ∧
    ∃ es, t.2 = earlier ++ es ∧ Counted c.file m es
  file_eq := rfl
  limit_eq := rfl
  disorder_eq := rfl
  still := by
    rintro m m' s t ⟨hs, hunits, rfl, es, hes, hcounted⟩ hanchor hoccurrences
    exact ⟨hs, hunits, hanchor, es, hes, hcounted.still hanchor hoccurrences⟩
  global := by
    rintro m _ ⟨s, _⟩ n ⟨rfl, hunits, hrest⟩
    exact ⟨rfl, rfl, (h.global n s).trans hunits, hrest⟩
  expired := by
    rintro m _ ⟨s, _⟩ ⟨rfl, hunits, hrest⟩
    exact ⟨rfl, rfl, (h.expired s).trans hunits, hrest⟩
  input := by
    rintro m _ ⟨s, _⟩ id ⟨rfl, -⟩
    rfl
  print := by
    rintro m _ ⟨s, _⟩ line ⟨rfl, hunits, hrest⟩
    exact ⟨rfl, (h.print line s).trans hunits, hrest⟩
  count := by
    rintro m s t call ⟨hs, hunits, hanchor, es, hes, hcounted⟩
    exact ⟨hs, hunits, hanchor, es, hes, hcounted.count call⟩
  emit := by
    rintro m _ ⟨s, _⟩ call u hu ⟨rfl, hunits, hanchor, es, rfl, hcounted⟩
    let new : Emission := ⟨c.site m call, u⟩
    refine ⟨rfl, ?_, hanchor, es ++ [new], List.append_assoc earlier es [new],
      hcounted.emit call hu.belongsAt⟩
    have hunits : units s = (earlier ++ es).map Emission.unit := hunits
    show units (c.host.emit _ u s) = (earlier ++ es ++ [new]).map Emission.unit
    rw [h.emit, hunits, List.map_append, List.map_append, List.map_append]
    rfl

/-- **Evaluating an expression with emissions on record.** -/
theorem Expr.recording_eval (h : c.Collects units) (scope : Scope) (e : Expr) {m : Machine} {s : σ}
    (hs : units s = []) :
    let r := e.eval c scope m s
    ∃ es, e.eval c.recording scope m (s, []) = (r.1, r.2.1, r.2.2, es) ∧
      units r.2.2 = es.map Emission.unit ∧ Attributed c.file [m.anchor] es := by
  obtain ⟨⟨s', es⟩, heval, hs', hunits, hanchor, _, rfl, hcounted⟩ :=
    together_eval (Companion.recorder h [] m.anchor) scope e m s (s, [])
      ⟨rfl, hs, rfl, [], rfl, .nil c.file m⟩
  obtain rfl : s' = (e.eval c scope m s).2.2 := hs'
  refine ⟨es, heval, hunits, ?_⟩
  rw [← hanchor]
  exact hcounted.toAttributed

/-- Executing a top-level statement with emissions on record. -/
theorem Stmt.recording_runTop (h : c.Collects units) (stmt : Stmt) (m : Machine) {s : σ}
    {earlier : List Emission} (hs : units s = earlier.map Emission.unit) :
    let r := stmt.runTop c m s
    ∃ es, stmt.runTop c.recording m (s, earlier) = (r.1, r.2.1, r.2.2, earlier ++ es) ∧
      units r.2.2 = (earlier ++ es).map Emission.unit ∧ Attributed c.file [stmt.span] es := by
  obtain ⟨⟨s', _⟩, hrun, hs', hunits, hanchor, es, rfl, hcounted⟩ :=
    together_runTop (Companion.recorder h earlier stmt.span) stmt (m := m) (s := s)
      (t := (s, earlier)) ⟨rfl, hs, rfl, [], (List.append_nil _).symm, .nil c.file _⟩
  obtain rfl : s' = (stmt.runTop c m s).2.2 := hs'
  refine ⟨es, hrun, hunits, ?_⟩
  rw [← hanchor]
  exact hcounted.toAttributed

/-- **Executing statements with emissions on record.**  Statements at different positions emit from
different sites. -/
theorem Stmt.recording_runAll (h : c.Collects units) {ss : List Stmt}
    (hss : (ss.map Stmt.span).Nodup) (m : Machine) {s : σ} {earlier : List Emission}
    (hs : units s = earlier.map Emission.unit) :
    let r := runAll c ss m s
    ∃ es, runAll c.recording ss m (s, earlier) = (r.1, r.2.1, r.2.2, earlier ++ es) ∧
      units r.2.2 = (earlier ++ es).map Emission.unit ∧
      Attributed c.file (ss.map Stmt.span) es := by
  induction ss generalizing m s earlier with
  | nil =>
    exact ⟨[], by rw [List.append_nil]; rfl, by rw [List.append_nil]; exact hs, .nil _ _⟩
  | cons stmt ss ih =>
    obtain ⟨hnew, hss⟩ := List.nodup_cons.1 hss
    obtain ⟨es, htop, hunits, hattributed⟩ := recording_runTop h stmt m hs
    rw [runAll, runAll, Eval.bind_apply, Eval.bind_apply, htop]
    rcases hr : stmt.runTop c m s with ⟨_ | _ | _, m', s'⟩ <;> rw [hr] at hunits
    · obtain ⟨es', hrest, hunits', hattributed'⟩ := ih hss m' hunits
      refine ⟨es ++ es', ?_, ?_, hattributed.append hattributed' ?_⟩
      · rw [← List.append_assoc]
        exact hrest
      · rw [← List.append_assoc]
        exact hunits'
      · exact List.singleton_disjoint.2 hnew
    · exact ⟨es, rfl, hunits, hattributed.mono (List.subset_append_left [stmt.span] _)⟩
    · exact ⟨es, rfl, hunits, hattributed.mono (List.subset_append_left [stmt.span] _)⟩

end Recording

end ReactiveScript

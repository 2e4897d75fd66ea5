import ReactiveScript.Proofs.Json
import ReactiveScript.Proofs.Memo
import ReactiveScript.Proofs.Number.Whole

/-!
# The normal form of values

A value leaves the engine as a document in normal form, and a document that comes in stands for a
value.  Numbers are the part to look at: whole ones become integers up to a cut-off and stay as they
are beyond it, and infinities and NaN are lost.  All else is a matter of the members of objects,
which are in order of their keys and so in another order than the entries of the dict.

* `Json.sortMembers_of_increasing`, `Json.perm_sortMembers` — members in order stay as they are, and
  none gets lost.
* `Value.numberToJson_cases` — the three normal forms of a number.
* `Value.toJson_ofJson_toJson`, `Value.same_ofJson_toJson` — the normal form read back.
* `Value.same_of_same_toJson` — equal normal forms are those of equal values.
* `Value.normal_form_stable_and_lossless` — all of it, and what a memo makes of it.
-/

set_option autoImplicit false

namespace ReactiveScript

namespace Json

/-! ## Members in order -/

/-- Members with increasing keys. -/
def Increasing (ms : List (String × Json)) : Prop := ms.Pairwise fun m m' => m.1 < m'.1

theorem Increasing.insertMember {ms : List (String × Json)} (h : Increasing ms) (k : String)
    (j : Json) : Increasing (insertMember k j ms) := by
  induction ms with
  | nil => exact List.pairwise_singleton _ _
  | cons e ms ih =>
    obtain ⟨i, b⟩ := e
    obtain ⟨hi, hms⟩ := List.pairwise_cons.1 h
    rw [Json.insertMember]
    split
    · rename_i hlt
      refine List.pairwise_cons.2 ⟨List.forall_mem_cons.2 ⟨hlt, fun m hm => ?_⟩, h⟩
      exact hlt.trans (hi m hm)
    · split
      · rename_i heq
        subst heq
        exact List.pairwise_cons.2 ⟨hi, hms⟩
      · rename_i hlt hne
        refine List.pairwise_cons.2 ⟨fun m hm => ?_, ih hms⟩
        rcases mem_of_mem_insertMember hm with rfl | hm
        · exact lt_of_le_of_ne (not_lt.1 hlt) (Ne.symm hne)
        · exact hi m hm

theorem increasing_sortMembers (ms : List (String × Json)) : Increasing (sortMembers ms) := by
  have hfold : ∀ (ms done : List (String × Json)), Increasing done →
      Increasing (ms.foldl (fun done e => insertMember e.1 e.2 done) done) := by
    intro ms
    induction ms with
    | nil => exact fun _ h => h
    | cons e ms ih => exact fun done h => ih _ (h.insertMember e.1 e.2)
  exact hfold ms [] List.Pairwise.nil

theorem insertMember_of_forall_lt {ms : List (String × Json)} {k : String} (j : Json)
    (h : ∀ m ∈ ms, m.1 < k) : insertMember k j ms = ms ++ [(k, j)] := by
  induction ms with
  | nil => rfl
  | cons e ms ih =>
    obtain ⟨i, b⟩ := e
    obtain ⟨hi, hms⟩ := List.forall_mem_cons.1 h
    rw [insertMember, if_neg hi.not_gt, if_neg hi.ne', ih hms]
    rfl

/-- Members in order stay as they are. -/
theorem sortMembers_of_increasing {ms : List (String × Json)} (h : Increasing ms) :
    sortMembers ms = ms := by
  have hfold : ∀ ms done : List (String × Json), Increasing (done ++ ms) →
      ms.foldl (fun done e => insertMember e.1 e.2 done) done = done ++ ms := by
    intro ms
    induction ms with
    | nil => exact fun done _ => (List.append_nil done).symm
    | cons e ms ih =>
      intro done h
      have hlt : ∀ m ∈ done, m.1 < e.1 := fun m hm =>
        (List.pairwise_append.1 h).2.2 m hm e List.mem_cons_self
      rw [List.foldl_cons, insertMember_of_forall_lt _ hlt, ih _ (by rwa [List.append_assoc]),
        List.append_assoc]
      rfl
  exact hfold ms [] h

theorem perm_insertMember {ms : List (String × Json)} {k : String} (j : Json)
    (h : k ∉ Table.keys ms) : (insertMember k j ms).Perm ((k, j) :: ms) := by
  induction ms with
  | nil => exact .refl _
  | cons e ms ih =>
    obtain ⟨i, b⟩ := e
    obtain ⟨hne, hms⟩ := not_or.1 (mt List.mem_cons.2 h)
    rw [insertMember, if_neg hne]
    split
    · exact .refl _
    · exact ((ih hms).cons _).trans (.swap _ _ _)

/-- Ordering members with different keys keeps all of them. -/
theorem perm_sortMembers {ms : List (String × Json)} (h : (Table.keys ms).Nodup) :
    (sortMembers ms).Perm ms := by
  have hfold : ∀ ms done : List (String × Json), (Table.keys (ms ++ done)).Nodup →
      (ms.foldl (fun done e => insertMember e.1 e.2 done) done).Perm (ms ++ done) := by
    intro ms
    induction ms with
    | nil => exact fun done _ => .refl _
    | cons e ms ih =>
      intro done h
      have hkeys : (Table.keys (ms ++ (e :: done))).Nodup :=
        (List.perm_middle.map Prod.fst).nodup_iff.2 h
      have he : e.1 ∉ Table.keys done := by
        have hright : (Table.keys (e :: done)).Nodup :=
          List.Nodup.sublist ((List.sublist_append_right ms _).map Prod.fst) hkeys
        exact (List.nodup_cons.1 hright).1
      have hperm : (ms ++ insertMember e.1 e.2 done).Perm (ms ++ e :: done) :=
        (perm_insertMember e.2 he).append_left ms
      exact ((ih _ ((hperm.map Prod.fst).nodup_iff.2 hkeys)).trans hperm).trans List.perm_middle
  have hall := hfold ms []
  rw [List.append_nil] at hall
  exact hall h

theorem Increasing.nodup_keys {ms : List (String × Json)} (h : Increasing ms) :
    (Table.keys ms).Nodup := List.pairwise_map.2 (h.imp LT.lt.ne)

/-- Objects with the same members have the same number of them, and one for each key. -/
theorem of_sameMembers {ms ms' : List (String × Json)} (h : sameMembers ms ms' = true) :
    ms.length = ms'.length ∧ ∀ m ∈ ms, ∃ j, (m.1, j) ∈ ms' ∧ m.2.same j = true := by
  induction ms generalizing ms' with
  | nil =>
    cases ms' with
    | nil => exact ⟨rfl, List.forall_mem_nil _⟩
    | cons m' ms' => cases h
  | cons m ms ih =>
    obtain ⟨k, i⟩ := m
    cases ms' with
    | nil => cases h
    | cons m' ms' =>
      obtain ⟨l, j⟩ := m'
      rw [sameMembers, Bool.and_eq_true, Bool.and_eq_true, beq_iff_eq] at h
      obtain ⟨⟨rfl, hsame⟩, hms⟩ := h
      obtain ⟨hlength, hall⟩ := ih hms
      refine ⟨congrArg Nat.succ hlength,
        List.forall_mem_cons.2 ⟨⟨j, List.mem_cons_self, hsame⟩, fun m hm => ?_⟩⟩
      obtain ⟨j, hj, hsame⟩ := hall m hm
      exact ⟨j, List.mem_cons_of_mem _ hj, hsame⟩

end Json

namespace Value

/-! ## Values that scripts have -/

mutual

/-- A property of a value and of all values in it. -/
def Throughout (p : Value → Prop) : Value → Prop
  | .list items => p (.list items) ∧ ThroughoutItems p items
  | .dict entries => p (.dict entries) ∧ ThroughoutEntries p entries
  | v => p v

/-- A property of all values in a list. -/
def ThroughoutItems (p : Value → Prop) : List Value → Prop
  | [] => True
  | v :: vs => Throughout p v ∧ ThroughoutItems p vs

/-- A property of all values in a dict. -/
def ThroughoutEntries (p : Value → Prop) : List (String × Value) → Prop
  | [] => True
  | (_, v) :: rest => Throughout p v ∧ ThroughoutEntries p rest

end

theorem throughout_of_mem {p : Value → Prop} {entries : List (String × Value)}
    (h : ThroughoutEntries p entries) {e : String × Value} (he : e ∈ entries) :
    Throughout p e.2 := by
  induction entries with
  | nil => cases he
  | cons e' entries ih =>
    rcases List.mem_cons.1 he with rfl | he
    · exact h.1
    · exact ih h.2 he

/-- A dict has no key twice. -/
def HasDistinctKeys : Value → Prop
  | .dict entries => (Table.keys entries).Nodup
  | _ => True

/-- A number is no infinity and not NaN. -/
def IsFinite : Value → Prop
  | .number x => x.isFinite = true
  | _ => True

/-- All dicts in a value are tables. -/
def WellFormed : Value → Prop := Throughout HasDistinctKeys

/-- All numbers in a value are finite. -/
def Finite : Value → Prop := Throughout IsFinite

/-! ## Numbers -/

theorem numberToJson_zero : numberToJson (Float.ofInt 0) = .int 0 := by
  have hfinite : (Float.ofInt 0).isFinite = true := by decide +kernel
  have hwhole : (Number.isWhole (Float.ofInt 0) && (Float.ofInt 0).abs < 9e15) = true := by
    decide +kernel
  have hint : Number.toInt64 (Float.ofInt 0) = 0 := by decide +kernel
  rw [numberToJson, hfinite, if_neg (by decide), if_pos hwhole, hint]

theorem beq_self_of_isFinite {x : Float} (h : x.isFinite = true) : (x == x) = true :=
  Json.same_float_self h

/-- A number is null if it is not finite, an integer that reads back as an equal number if it is
whole and not too large, and itself otherwise. -/
theorem numberToJson_cases (x : Float) :
    x.isFinite = false ∧ numberToJson x = .null ∨
    (∃ n, numberToJson x = .int n ∧ (Float.ofInt n == x) = true ∧
      numberToJson (Float.ofInt n) = .int n) ∨
    x.isFinite = true ∧ numberToJson x = .float x := by
  cases hfinite : x.isFinite with
  | false => exact Or.inl ⟨rfl, by rw [numberToJson, hfinite]; rfl⟩
  | true =>
    right
    have hcases : numberToJson x = if Number.isWhole x && x.abs < 9e15 then
        .int (Number.toInt64 x) else .float x := by
      rw [numberToJson, hfinite]
      rfl
    by_cases hwhole : (Number.isWhole x && x.abs < 9e15) = true
    · rw [if_pos hwhole] at hcases
      rw [Bool.and_eq_true, decide_eq_true_iff] at hwhole
      refine Or.inl ⟨_, hcases, ?_⟩
      rcases Number.ofInt_toInt64 hwhole.1 hwhole.2 with ⟨hzero, hint⟩ | heq
      · rw [hint]
        exact ⟨(BEq.comm (a := (0 : Float))).trans hzero, numberToJson_zero⟩
      · rw [heq]
        exact ⟨beq_self_of_isFinite hfinite, hcases⟩
    · rw [if_neg hwhole] at hcases
      exact Or.inr ⟨rfl, hcases⟩

theorem toJson_ofJson_numberToJson (x : Float) :
    (ofJson (numberToJson x)).toJson = numberToJson x := by
  rcases numberToJson_cases x with ⟨-, h⟩ | ⟨n, h, -, hagain⟩ | ⟨-, h⟩
  · rw [h]
    rfl
  · rw [h]
    exact hagain
  · rw [h]
    exact h

/-! ## The normal form of the normal form -/

theorem entriesToJson_membersOfJson {ms : List (String × Json)}
    (h : ∀ m ∈ ms, (ofJson m.2).toJson = m.2) : entriesToJson (membersOfJson ms) = ms := by
  induction ms with
  | nil => rfl
  | cons m ms ih =>
    obtain ⟨hm, hms⟩ := List.forall_mem_cons.1 h
    rw [membersOfJson, entriesToJson, hm, ih hms]

theorem keys_membersOfJson (ms : List (String × Json)) :
    Table.keys (membersOfJson ms) = Table.keys ms := by
  induction ms with
  | nil => rfl
  | cons m ms ih => exact congrArg (m.1 :: ·) ih

theorem keys_entriesToJson (entries : List (String × Value)) :
    Table.keys (entriesToJson entries) = Table.keys entries := by
  induction entries with
  | nil => rfl
  | cons e entries ih => exact congrArg (e.1 :: ·) ih

mutual

/-- The normal form of what a normal form stands for is that normal form. -/
theorem toJson_ofJson_toJson (v : Value) : (ofJson v.toJson).toJson = v.toJson := by
  cases v with
  | null | bool | text => rfl
  | number x => exact toJson_ofJson_numberToJson x
  | list items =>
    rw [toJson, ofJson, toJson, itemsToJson_itemsOfJson items]
  | dict entries =>
    have hms := Json.increasing_sortMembers (entriesToJson entries)
    have hnodup := (keys_membersOfJson (Json.sortMembers (entriesToJson entries))).symm ▸
      hms.nodup_keys
    rw [toJson, ofJson, Table.ofList_of_nodup hnodup, toJson, entriesToJson_membersOfJson,
      Json.sortMembers_of_increasing hms]
    exact fun m hm => toJson_ofJson_entriesToJson entries m (Json.mem_of_mem_sortMembers hm)
termination_by structural v

theorem itemsToJson_itemsOfJson (items : List Value) :
    itemsToJson (itemsOfJson (itemsToJson items)) = itemsToJson items := by
  cases items with
  | nil => rfl
  | cons v vs =>
    rw [itemsToJson, itemsOfJson, itemsToJson, toJson_ofJson_toJson v, itemsToJson_itemsOfJson vs]
termination_by structural items

theorem toJson_ofJson_entriesToJson (entries : List (String × Value)) :
    ∀ m ∈ entriesToJson entries, (ofJson m.2).toJson = m.2 := by
  cases entries with
  | nil => exact List.forall_mem_nil _
  | cons e entries =>
    obtain ⟨k, v⟩ := e
    exact List.forall_mem_cons.2 ⟨toJson_ofJson_toJson v, toJson_ofJson_entriesToJson entries⟩
termination_by structural entries

end

/-! ## Nothing gets lost -/

theorem entriesToJson_eq_map (entries : List (String × Value)) :
    entriesToJson entries = entries.map fun e => (e.1, e.2.toJson) := by
  induction entries with
  | nil => rfl
  | cons e entries ih => exact congrArg ((e.1, e.2.toJson) :: ·) ih

theorem membersOfJson_eq_map (ms : List (String × Json)) :
    membersOfJson ms = ms.map fun m => (m.1, ofJson m.2) := by
  induction ms with
  | nil => rfl
  | cons m ms ih => exact congrArg ((m.1, ofJson m.2) :: ·) ih

theorem allFound_iff {as bs : List (String × Value)} : allFound as bs = true ↔
    ∀ e ∈ as, ∃ b, Table.get? e.1 bs = some b ∧ e.2.same b = true := by
  induction as with
  | nil => exact ⟨fun _ => List.forall_mem_nil _, fun _ => rfl⟩
  | cons e as ih =>
    obtain ⟨k, a⟩ := e
    rw [allFound, Bool.and_eq_true, ih, List.forall_mem_cons]
    refine and_congr_left fun _ => ?_
    cases Table.get? k bs <;> simp

/-- The members of the normal form of a dict are the normal forms of its entries. -/
theorem mem_sortMembers_entriesToJson {entries : List (String × Value)}
    (h : (Table.keys entries).Nodup) {k : String} {j : Json} :
    (k, j) ∈ Json.sortMembers (entriesToJson entries) ↔
      ∃ v, Table.get? k entries = some v ∧ v.toJson = j := by
  have hperm := Json.perm_sortMembers (by rwa [keys_entriesToJson])
  rw [hperm.mem_iff, entriesToJson_eq_map, List.mem_map]
  constructor
  · rintro ⟨⟨l, v⟩, hv, heq⟩
    cases heq
    exact ⟨v, Table.get?_of_mem h hv, rfl⟩
  · rintro ⟨v, hv, rfl⟩
    exact ⟨(k, v), Table.mem_of_get? hv, rfl⟩

theorem length_sortMembers_entriesToJson {entries : List (String × Value)}
    (h : (Table.keys entries).Nodup) :
    (Json.sortMembers (entriesToJson entries)).length = entries.length := by
  rw [(Json.perm_sortMembers (by rwa [keys_entriesToJson])).length_eq, entriesToJson_eq_map,
    List.length_map]

mutual

/-- What the normal form of a value without infinities and NaN stands for is that value. -/
theorem same_ofJson_toJson {v : Value} (hw : v.WellFormed) (hf : v.Finite) :
    (ofJson v.toJson).same v = true := by
  cases v with
  | null => rfl
  | bool b => exact beq_self_eq_true b
  | text s => exact beq_self_eq_true s
  | number x =>
    have hx : x.isFinite = true := hf
    rcases numberToJson_cases x with ⟨hnot, -⟩ | ⟨n, h, hsame, -⟩ | ⟨-, h⟩
    · rw [hx] at hnot
      cases hnot
    · rw [toJson, h]
      exact hsame
    · rw [toJson, h]
      exact beq_self_of_isFinite hx
  | list items => exact sameItems_itemsOfJson hw.2 hf.2
  | dict entries =>
    obtain ⟨hkeys, hentries⟩ := hw
    have hsame := same_ofJson_entries hentries hf.2
    rw [toJson, ofJson, Table.ofList_of_nodup, same, Bool.and_eq_true, beq_iff_eq]
    · refine ⟨?_, allFound_iff.2 fun e he => ?_⟩
      · rw [membersOfJson_eq_map, List.length_map, length_sortMembers_entriesToJson hkeys]
      · rw [membersOfJson_eq_map] at he
        obtain ⟨⟨k, j⟩, hm, rfl⟩ := List.mem_map.1 he
        obtain ⟨v, hv, rfl⟩ := (mem_sortMembers_entriesToJson hkeys).1 hm
        exact ⟨v, hv, hsame _ (Table.mem_of_get? hv)⟩
    · rw [keys_membersOfJson]
      exact (Json.increasing_sortMembers _).nodup_keys
termination_by structural v

theorem sameItems_itemsOfJson {items : List Value}
    (hw : ThroughoutItems HasDistinctKeys items) (hf : ThroughoutItems IsFinite items) :
    sameItems (itemsOfJson (itemsToJson items)) items = true := by
  cases items with
  | nil => rfl
  | cons v vs =>
    rw [itemsToJson, itemsOfJson, sameItems, same_ofJson_toJson hw.1 hf.1,
      sameItems_itemsOfJson hw.2 hf.2]
    rfl
termination_by structural items

theorem same_ofJson_entries {entries : List (String × Value)}
    (hw : ThroughoutEntries HasDistinctKeys entries) (hf : ThroughoutEntries IsFinite entries) :
    ∀ e ∈ entries, (ofJson e.2.toJson).same e.2 = true := by
  cases entries with
  | nil => exact List.forall_mem_nil _
  | cons e entries =>
    obtain ⟨k, v⟩ := e
    exact List.forall_mem_cons.2
      ⟨same_ofJson_toJson hw.1 hf.1, same_ofJson_entries hw.2 hf.2⟩
termination_by structural entries

end

/-- Numbers whose normal forms are equal are equal. -/
theorem beq_of_same_numberToJson {x y : Float} (hx : x.isFinite = true) (hy : y.isFinite = true)
    (h : (numberToJson x).same (numberToJson y) = true) : (x == y) = true := by
  rcases numberToJson_cases x with ⟨hnot, -⟩ | ⟨n, hn, hxn, -⟩ | ⟨-, hn⟩
  · rw [hx] at hnot
    cases hnot
  · rcases numberToJson_cases y with ⟨hnot, -⟩ | ⟨k, hk, hyk, -⟩ | ⟨-, hk⟩
    · rw [hy] at hnot
      cases hnot
    · rw [hn, hk, Json.same, beq_iff_eq] at h
      rw [h] at hxn
      exact BEq.trans (BEq.symm hxn) hyk
    · rw [hn, hk] at h
      cases h
  · rcases numberToJson_cases y with ⟨hnot, -⟩ | ⟨k, hk, -, -⟩ | ⟨-, hk⟩
    · rw [hy] at hnot
      cases hnot
    · rw [hn, hk] at h
      cases h
    · rw [hn, hk] at h
      exact h

/-- Only a number has the normal form of a number. -/
theorem exists_eq_number {x : Float} (hx : x.isFinite = true) {v : Value}
    (h : (number x).toJson.same v.toJson = true) : ∃ y, v = .number y := by
  rw [toJson] at h
  rcases numberToJson_cases x with ⟨hnot, -⟩ | ⟨n, hn, -, -⟩ | ⟨-, hn⟩
  · rw [hx] at hnot
    cases hnot
  all_goals
    rw [hn] at h
    cases v with
    | number y => exact ⟨y, rfl⟩
    | null | bool | text | list | dict => cases h

mutual

/-- Values without infinities and NaN whose normal forms are equal are equal. -/
theorem same_of_same_toJson {v w : Value} (hv : v.WellFormed) (hv' : v.Finite)
    (hw : w.WellFormed) (hw' : w.Finite) (h : v.toJson.same w.toJson = true) :
    v.same w = true := by
  cases v with
  | null =>
    cases w with
    | null => rfl
    | number y =>
      obtain ⟨_, heq⟩ := exists_eq_number hw' ((Json.same_comm _ _).trans h)
      cases heq
    | bool | text | list | dict => cases h
  | bool b =>
    cases w with
    | bool c => exact h
    | number y =>
      obtain ⟨_, heq⟩ := exists_eq_number hw' ((Json.same_comm _ _).trans h)
      cases heq
    | null | text | list | dict => cases h
  | number x =>
    obtain ⟨y, rfl⟩ := exists_eq_number hv' h
    exact beq_of_same_numberToJson hv' hw' h
  | text s =>
    cases w with
    | text t => exact h
    | number y =>
      obtain ⟨_, heq⟩ := exists_eq_number hw' ((Json.same_comm _ _).trans h)
      cases heq
    | null | bool | list | dict => cases h
  | list as =>
    cases w with
    | list bs => exact sameItems_of_sameItems_toJson hv.2 hv'.2 hw.2 hw'.2 h
    | number y =>
      obtain ⟨_, heq⟩ := exists_eq_number hw' ((Json.same_comm _ _).trans h)
      cases heq
    | null | bool | text | dict => cases h
  | dict as =>
    cases w with
    | dict bs =>
      obtain ⟨hlength, hall⟩ := Json.of_sameMembers h
      rw [length_sortMembers_entriesToJson hv.1, length_sortMembers_entriesToJson hw.1] at hlength
      have hentries := same_of_same_toJson_entries hv.2 hv'.2
      rw [same, Bool.and_eq_true, beq_iff_eq]
      refine ⟨hlength, allFound_iff.2 fun e he => ?_⟩
      obtain ⟨k, a⟩ := e
      obtain ⟨j, hj, hsame⟩ := hall (k, a.toJson)
        ((mem_sortMembers_entriesToJson hv.1).2 ⟨a, Table.get?_of_mem hv.1 he, rfl⟩)
      obtain ⟨b, hb, rfl⟩ := (mem_sortMembers_entriesToJson hw.1).1 hj
      have hmem := Table.mem_of_get? hb
      exact ⟨b, hb, hentries (k, a) he b (throughout_of_mem hw.2 hmem)
        (throughout_of_mem hw'.2 hmem) hsame⟩
    | number y =>
      obtain ⟨_, heq⟩ := exists_eq_number hw' ((Json.same_comm _ _).trans h)
      cases heq
    | null | bool | text | list => cases h
termination_by structural v

theorem sameItems_of_sameItems_toJson {as bs : List Value}
    (ha : ThroughoutItems HasDistinctKeys as) (ha' : ThroughoutItems IsFinite as)
    (hb : ThroughoutItems HasDistinctKeys bs) (hb' : ThroughoutItems IsFinite bs)
    (h : Json.sameItems (itemsToJson as) (itemsToJson bs) = true) : sameItems as bs = true := by
  cases as with
  | nil =>
    cases bs with
    | nil => rfl
    | cons b bs => cases h
  | cons a as =>
    cases bs with
    | nil => cases h
    | cons b bs =>
      rw [itemsToJson, itemsToJson, Json.sameItems, Bool.and_eq_true] at h
      rw [sameItems, same_of_same_toJson ha.1 ha'.1 hb.1 hb'.1 h.1,
        sameItems_of_sameItems_toJson ha.2 ha'.2 hb.2 hb'.2 h.2]
      rfl
termination_by structural as

theorem same_of_same_toJson_entries {as : List (String × Value)}
    (ha : ThroughoutEntries HasDistinctKeys as) (ha' : ThroughoutEntries IsFinite as) :
    ∀ e ∈ as, ∀ w : Value, w.WellFormed → w.Finite → e.2.toJson.same w.toJson = true →
      e.2.same w = true := by
  cases as with
  | nil => exact List.forall_mem_nil _
  | cons e as =>
    obtain ⟨k, v⟩ := e
    exact List.forall_mem_cons.2 ⟨fun w hw hw' h => same_of_same_toJson ha.1 ha'.1 hw hw' h,
      same_of_same_toJson_entries ha.2 ha'.2⟩
termination_by structural as

end

/-! ## The theorem -/

/-- **The normal form is stable and loses nothing but infinities and NaN.**  The normal form of what
a normal form stands for is that normal form.  What the normal form of a value without infinities
and NaN stands for is that value, two such values with equal normal forms are equal, and a memo
that has the one on record takes the other for new if they are not equal. -/
theorem normal_form_stable_and_lossless :
    (∀ v : Value, (ofJson v.toJson).toJson = v.toJson) ∧
    (∀ v : Value, v.WellFormed → v.Finite → (ofJson v.toJson).same v = true) ∧
    (∀ v w : Value, v.WellFormed → v.Finite → w.WellFormed → w.Finite →
      v.toJson.same w.toJson = true → v.same w = true) ∧
    (∀ (m : Memo) (id : UnitId) (v w : Value), v.WellFormed → v.Finite → w.WellFormed → w.Finite →
      v.same w = false → m.get? id = some v.toJson →
      m.offer id w.toJson = (true, ⟨Table.put id w.toJson m.forms⟩)) := by
  refine ⟨toJson_ofJson_toJson, fun v => same_ofJson_toJson, fun v w => same_of_same_toJson,
    fun m id v w hv hv' hw hw' hdiffer hform => ?_⟩
  have hnew : ¬m.records id w.toJson = true := by
    rw [Memo.records, hform]
    intro hsame
    rw [same_of_same_toJson hv hv' hw hw' hsame] at hdiffer
    cases hdiffer
  rw [Memo.offer, if_neg hnew]

/-- A dict with a list in it that has numbers on both sides of the cut-off for integers, and the
same dict after its other number has changed. -/
theorem normal_form_of_nested :
    let v : Value := .dict [("b", .list [.number 9e15, .number 3, .bool true]), ("a", .number 1.5)]
    let w : Value := .dict [("b", .list [.number 9e15, .number 3, .bool true]), ("a", .number 2)]
    (ofJson v.toJson).same v = true ∧ (Memo.mk [(⟨"slider-0"⟩, v.toJson)]).offer ⟨"slider-0"⟩
      w.toJson = (true, ⟨[(⟨"slider-0"⟩, w.toJson)]⟩) := by
  have hkeys : ["b", "a"].Nodup := by decide
  have hcut : Float.isFinite 9e15 = true ∧ Float.isFinite 3 = true := by decide +kernel
  have hlast : Float.isFinite 1.5 = true ∧ Float.isFinite 2 = true := by decide +kernel
  have hregular : ∀ x : Float, x.isFinite = true → ∀ u : Value,
      u = .dict [("b", .list [.number 9e15, .number 3, .bool true]), ("a", .number x)] →
      u.WellFormed ∧ u.Finite := by
    rintro x hx u rfl
    exact ⟨⟨hkeys, ⟨trivial, trivial, trivial, trivial, trivial⟩, trivial, trivial⟩,
      trivial, ⟨trivial, hcut.1, hcut.2, trivial, trivial⟩, hx, trivial⟩
  intro v w
  obtain ⟨hv, hv'⟩ := hregular _ hlast.1 v rfl
  obtain ⟨hw, hw'⟩ := hregular _ hlast.2 w rfl
  have hdiffer : v.same w = false := by decide +kernel
  obtain ⟨-, hlossless, -, hnew⟩ := normal_form_stable_and_lossless
  exact ⟨hlossless v hv hv', hnew _ _ v w hv hv' hw hw' hdiffer rfl⟩

end Value

end ReactiveScript

import ReactiveScript.Proofs.Checked
import ReactiveScript.Proofs.Grammar.Derivation
import ReactiveScript.Proofs.Grammar.Expression

/-!
# What the parsers read

Whatever an expression parser reads is a phrase of its level, and the tree that it returns is the
one that the phrase spells.

* `Grammar.Sound` — a parser reads nothing but what spells its result.
* `Grammar.sound_expressionAt` — expression parsers read expressions.
-/

set_option autoImplicit false

namespace ReactiveScript

namespace Grammar

variable {α : Type}

/-- A parser reads nothing but what spells its result. -/
def Sound (p : Parser α) (spells : Spelling α) : Prop :=
  ∀ ⦃ts : List Located⦄ ⦃a : α⦄ ⦃rest : List Located⦄, p ts = .ok (a, rest) →
    ∃ used, ts = used ++ rest ∧ spells used a

/-! ## Single tokens -/

theorem expect_eq_ok {t : Token} {ts rest : List Located} (h : expect t ts = .ok rest) :
    ∃ s, ts = ⟨t, s⟩ :: rest := by
  cases ts with
  | nil => cases h
  | cons x ts =>
    rw [expect] at h
    split at h
    · rename_i hx
      cases h
      exact ⟨x.span, by rw [← hx]⟩
    · cases h

theorem expectName_eq_ok {ts rest : List Located} {n : String} (h : expectName ts = .ok (n, rest)) :
    ∃ s, ts = ⟨.name n, s⟩ :: rest := by
  rw [expectName.eq_def] at h
  split at h
  · cases h
    exact ⟨_, rfl⟩
  · cases h

theorem exists_joinTexts (ts : List Located) : ∃ more : List (String × Span),
    ts = more.map (fun m => ⟨.text m.1, m.2⟩) ++ (joinTexts ts).2 ∧
      (joinTexts ts).1 = (more.map Prod.fst).foldr (· ++ ·) "" := by
  fun_induction joinTexts ts with
  | case1 s span ts text rest hjoin ih =>
    obtain ⟨more, hts, htext⟩ := ih
    rw [hjoin] at hts htext
    exact ⟨(s, span) :: more, congrArg (⟨.text s, span⟩ :: ·) hts, congrArg (s ++ ·) htext⟩
  | case2 ts => exact ⟨[], rfl, rfl⟩

/-! ## Lists in brackets -/

/-- What follows an item is a comma and what comes behind it, or the closing mark. -/
theorem afterItem_eq_ok {close : Mark} {more : Parser α} {nothing a : α} {ts rest : List Located}
    (h : afterItem close more nothing ts = .ok (a, rest)) :
    (∃ s us, ts = ⟨.mark .comma, s⟩ :: us ∧ more us = .ok (a, rest)) ∨
      (∃ s, ts = ⟨.mark close, s⟩ :: rest) ∧ a = nothing := by
  rw [afterItem.eq_def] at h
  split at h
  · exact Or.inl ⟨_, _, rfl, h⟩
  · obtain ⟨ts', hexpect, h⟩ := exists_of_bind h
    cases h
    exact Or.inr ⟨expect_eq_ok hexpect, rfl⟩

/-- An item and what follows it. -/
theorem items_afterItem {item : Spelling α} {close : Mark} {more : Parser (List α)} {a : α}
    {ts us rest : List Located} {as : List α} (hitem : item us a)
    (hmore : ∀ ⦃ts as rest⦄, more ts = .ok (as, rest) →
      ∃ used s, ts = used ++ ⟨.mark close, s⟩ :: rest ∧ Items item used as)
    (h : afterItem close more [] ts = .ok (as, rest)) :
    ∃ used s, us ++ ts = used ++ ⟨.mark close, s⟩ :: rest ∧ Items item used (a :: as) := by
  rcases afterItem_eq_ok h with ⟨s, vs, rfl, hvs⟩ | ⟨⟨s, rfl⟩, rfl⟩
  · obtain ⟨used, s', rfl, hitems⟩ := hmore hvs
    exact ⟨_, s', by rw [List.append_assoc, List.cons_append], .cons hitem s hitems⟩
  · exact ⟨us, s, rfl, .last hitem⟩

section Inner

variable {inner : Parser Expr} {spells : Spelling Expr} {format : FormatParser}

theorem sound_listItems (h : Sound inner spells) (n : Nat) {ts rest : List Located}
    {es : List Expr} (hread : listItems inner n ts = .ok (es, rest)) :
    ∃ used s, ts = used ++ ⟨.mark .closeBracket, s⟩ :: rest ∧ Items spells used es := by
  induction n generalizing ts es rest with
  | zero => cases hread
  | succ n ih =>
    rw [listItems.eq_def] at hread
    dsimp only at hread
    split at hread
    · cases hread
      exact ⟨[], _, rfl, .nil⟩
    · obtain ⟨⟨e, ts₁⟩, he, hread⟩ := exists_of_bind hread
      obtain ⟨⟨es', ts₂⟩, hes, hread⟩ := exists_of_bind hread
      cases hread
      obtain ⟨us, rfl, hspells⟩ := h he
      exact items_afterItem hspells (fun _ _ _ => ih) hes

theorem sound_dictEntries (h : Sound inner spells) (n : Nat) {ts rest : List Located}
    {es : List (Expr × Expr)} (hread : dictEntries inner n ts = .ok (es, rest)) :
    ∃ used s, ts = used ++ ⟨.mark .closeBrace, s⟩ :: rest ∧ Items (Entry spells) used es := by
  induction n generalizing ts es rest with
  | zero => cases hread
  | succ n ih =>
    rw [dictEntries.eq_def] at hread
    dsimp only at hread
    split at hread
    · cases hread
      exact ⟨[], _, rfl, .nil⟩
    · obtain ⟨⟨k, ts₁⟩, hk, hread⟩ := exists_of_bind hread
      obtain ⟨ts₂, hcolon, hread⟩ := exists_of_bind hread
      obtain ⟨⟨v, ts₃⟩, hv, hread⟩ := exists_of_bind hread
      obtain ⟨⟨es', ts₄⟩, hes, hread⟩ := exists_of_bind hread
      cases hread
      obtain ⟨us, rfl, hkey⟩ := h hk
      obtain ⟨s, rfl⟩ := expect_eq_ok hcolon
      obtain ⟨vs, rfl, hvalue⟩ := h hv
      obtain ⟨used, s', heq, hitems⟩ :=
        items_afterItem (Entry.intro hkey s hvalue) (fun _ _ _ => ih) hes
      exact ⟨used, s', by rw [← heq, List.append_assoc, List.cons_append], hitems⟩

/-- What the arguments of a call spell if `seen` are the keywords in front of them: positional
arguments only if there are none, and keywords that are new and different. -/
structure Accepts (spells : Spelling Expr) (seen : List String) (ts : List Located)
    (r : List Expr × List (String × Expr)) : Prop where
  /-- They are arguments. -/
  items : Items (Argument spells) ts (r.1.map Sum.inl ++ r.2.map Sum.inr)
  /-- Their keywords are different. -/
  nodup : (r.2.map Prod.fst).Nodup
  /-- None is one of those in front. -/
  fresh : ∀ k ∈ r.2.map Prod.fst, k ∉ seen
  /-- No positional argument comes behind a keyword argument. -/
  args_eq : seen ≠ [] → r.1 = []

theorem accepts_nil (spells : Spelling Expr) (seen : List String) : Accepts spells seen [] ([], []) :=
  ⟨.nil, List.nodup_nil, nofun, fun _ => rfl⟩

/-- A keyword argument in front of others. -/
theorem Accepts.keyword {seen : List String} {k : String} {us ts : List Located} {e : Expr}
    {r : List Expr × List (String × Expr)} (hk : k ∉ seen) (h : Accepts spells (k :: seen) us r)
    (hitems : Items (Argument spells) us (r.2.map Sum.inr) →
      Items (Argument spells) ts (.inr (k, e) :: r.2.map Sum.inr)) :
    Accepts spells seen ts (r.1, (k, e) :: r.2) := by
  obtain ⟨args, kws⟩ := r
  obtain rfl : args = [] := h.args_eq (List.cons_ne_nil k seen)
  refine ⟨hitems h.items, ?_, ?_, fun _ => rfl⟩
  · exact List.nodup_cons.2 ⟨fun hmem => h.fresh k hmem (List.mem_cons_self ..), h.nodup⟩
  · exact List.forall_mem_cons.2 ⟨hk, fun k' hk' hseen => h.fresh k' hk' (List.mem_cons_of_mem k hseen)⟩

theorem sound_arguments (h : Sound inner spells) (n : Nat) {seen : List String}
    {ts rest : List Located} {r : List Expr × List (String × Expr)}
    (hread : arguments inner n seen ts = .ok (r, rest)) :
    ∃ used s, ts = used ++ ⟨.mark .closeParen, s⟩ :: rest ∧ Accepts spells seen used r := by
  induction n generalizing seen ts r rest with
  | zero => cases hread
  | succ n ih =>
    rw [arguments.eq_def] at hread
    dsimp only at hread
    split at hread
    · cases hread
      exact ⟨[], _, rfl, accepts_nil spells seen⟩
    · rename_i k s s' ts
      split at hread
      · cases hread
      · rename_i hk
        obtain ⟨⟨e, ts₁⟩, he, hread⟩ := exists_of_bind hread
        obtain ⟨⟨⟨args, kws⟩, ts₂⟩, hmore, hread⟩ := exists_of_bind hread
        cases hread
        obtain ⟨us, rfl, hspells⟩ := h he
        have hitem : Argument spells (⟨.name k, s⟩ :: ⟨.mark .assign, s'⟩ :: us) (.inr (k, e)) :=
          .keyword k s s' hspells
        rcases afterItem_eq_ok hmore with ⟨t, vs, rfl, hvs⟩ | ⟨⟨t, rfl⟩, hnothing⟩
        · obtain ⟨used, t', rfl, haccepts⟩ := ih hvs
          exact ⟨_, t', by simp only [List.append_assoc, List.cons_append],
            haccepts.keyword hk (.cons hitem t)⟩
        · cases hnothing
          exact ⟨_, t, rfl, (accepts_nil spells (k :: seen)).keyword hk fun _ => .last hitem⟩
    · split at hread
      · cases hread
      · rename_i hseen
        obtain rfl : seen = [] := Decidable.not_not.1 hseen
        obtain ⟨⟨e, ts₁⟩, he, hread⟩ := exists_of_bind hread
        obtain ⟨⟨⟨args, kws⟩, ts₂⟩, hmore, hread⟩ := exists_of_bind hread
        cases hread
        obtain ⟨us, rfl, hspells⟩ := h he
        have hitem : Argument spells us (.inl e) := .positional hspells
        rcases afterItem_eq_ok hmore with ⟨t, vs, rfl, hvs⟩ | ⟨⟨t, rfl⟩, hnothing⟩
        · obtain ⟨used, t', rfl, haccepts⟩ := ih hvs
          exact ⟨_, t', by rw [List.append_assoc, List.cons_append],
            .cons hitem t haccepts.items, haccepts.nodup, haccepts.fresh, absurd rfl⟩
        · cases hnothing
          exact ⟨us, t, rfl, .last hitem, List.nodup_nil, nofun, absurd rfl⟩

theorem sound_primary (h : Sound inner spells) :
    Sound (primary inner format) (Phrase spells format .primary) := by
  intro ts e rest hread
  rw [primary.eq_def] at hread
  split at hread
  · cases hread
    exact ⟨[_], rfl, .number _ _⟩
  · rename_i t s ts
    obtain ⟨more, hts, htext⟩ := exists_joinTexts ts
    cases hread
    rw [htext]
    exact ⟨_, congrArg (_ :: ·) hts, .text t s more⟩
  · obtain ⟨ps, hps, hread⟩ := exists_of_bind hread
    cases hread
    exact ⟨[_], rfl, .format hps⟩
  · cases hread
    exact ⟨[_], rfl, .true _⟩
  · cases hread
    exact ⟨[_], rfl, .false _⟩
  · cases hread
    exact ⟨[_], rfl, .none _⟩
  · cases hread
    exact ⟨[_], rfl, .name _ _⟩
  · rename_i s ts
    obtain ⟨⟨e', ts₁⟩, he, hread⟩ := exists_of_bind hread
    obtain ⟨ts₂, hclose, hread⟩ := exists_of_bind hread
    cases hread
    obtain ⟨us, rfl, hspells⟩ := h he
    obtain ⟨s', rfl⟩ := expect_eq_ok hclose
    exact ⟨_, by simp, .parens s s' hspells⟩
  · rename_i s ts
    obtain ⟨⟨es, ts₁⟩, hes, hread⟩ := exists_of_bind hread
    cases hread
    obtain ⟨us, s', rfl, hitems⟩ := sound_listItems h _ hes
    exact ⟨_, by simp, .list s s' hitems⟩
  · rename_i s ts
    obtain ⟨⟨es, ts₁⟩, hes, hread⟩ := exists_of_bind hread
    cases hread
    obtain ⟨us, s', rfl, hitems⟩ := sound_dictEntries h _ hes
    exact ⟨_, by simp, .dict s s' hitems⟩
  · cases hread

/-! ## Calls, items and attributes -/

/-- What is a name with everything behind it is a name. -/
theorem Phrase.primary_of_name {ts : List Located} {s : Span} {n : String}
    (h : Phrase spells format .applied ts (.name s n)) :
    Phrase spells format .primary ts (.name s n) := by
  generalize hl : Level.applied = l at h
  generalize he : Expr.name s n = e at h
  cases h with
  | tighter h =>
    subst hl he
    exact h
  | name => cases hl
  | parens => cases hl
  | _ => cases he

/-- What is read behind a phrase goes on with it. -/
theorem sound_trailers (h : Sound inner spells) (n : Nat) {used ts rest : List Located}
    {e e' : Expr} (he : Phrase spells format .applied used e)
    (hread : trailers inner n e ts = .ok (e', rest)) :
    ∃ used', used ++ ts = used' ++ rest ∧ Phrase spells format .applied used' e' := by
  induction n generalizing e used ts with
  | zero =>
    cases hread
    exact ⟨used, rfl, he⟩
  | succ n ih =>
    rw [trailers.eq_def] at hread
    dsimp only at hread
    split at hread
    · rename_i s ts
      split at hread
      · rename_i span f
        obtain ⟨⟨r, ts₁⟩, hargs, hmore⟩ := exists_of_bind hread
        clear hread
        obtain ⟨us, s', rfl, haccepts⟩ := sound_arguments h _ hargs
        have hcall := Phrase.call he.primary_of_name s s' haccepts.items haccepts.nodup
        obtain ⟨used', heq, hphrase⟩ := ih hcall hmore
        exact ⟨used', by rw [← heq]; simp, hphrase⟩
      · cases hread
    · rename_i s ts
      obtain ⟨⟨i, ts₁⟩, hi, hafter⟩ := exists_of_bind hread
      obtain ⟨ts₂, hclose, hmore⟩ := exists_of_bind hafter
      clear hread hafter
      obtain ⟨us, rfl, hspells⟩ := h hi
      obtain ⟨s', rfl⟩ := expect_eq_ok hclose
      obtain ⟨used', heq, hphrase⟩ := ih (.index he s s' hspells) hmore
      exact ⟨used', by rw [← heq]; simp, hphrase⟩
    · rename_i s ts
      obtain ⟨⟨a, ts₁⟩, hname, hmore⟩ := exists_of_bind hread
      clear hread
      obtain ⟨s', rfl⟩ := expectName_eq_ok hname
      obtain ⟨used', heq, hphrase⟩ := ih (.field he s s' a) hmore
      exact ⟨used', by rw [← heq]; simp, hphrase⟩
    · cases hread
      exact ⟨used, rfl, he⟩

theorem sound_applied (h : Sound inner spells) :
    Sound (applied inner format) (Phrase spells format .applied) := by
  intro ts e rest hread
  obtain ⟨⟨e₁, ts₁⟩, he, hmore⟩ := exists_of_bind hread
  clear hread
  obtain ⟨us, rfl, hprimary⟩ := sound_primary h he
  exact sound_trailers h _ (.tighter hprimary) hmore

/-! ## Operators -/

theorem sound_signed (h : Sound inner spells) :
    Sound (signed inner format) (Phrase spells format .signed) := by
  intro ts e rest hread
  fun_induction signed inner format ts generalizing e rest with
  | case1 s ts ih =>
    obtain ⟨⟨e₁, ts₁⟩, he, hread⟩ := exists_of_bind hread
    cases hread
    obtain ⟨us, rfl, hphrase⟩ := ih he
    exact ⟨_ :: us, rfl, .unary .neg s hphrase⟩
  | case2 ts _ =>
    obtain ⟨us, rfl, hphrase⟩ := sound_applied h hread
    exact ⟨us, rfl, .tighter hphrase⟩

/-- A joining token makes one phrase of a level of two. -/
def Joins (join? : Joining) (spells : Spelling Expr) (format : FormatParser) (l : Level) : Prop :=
  ∀ ⦃t : Located⦄ ⦃join : Expr → Expr → Expr⦄, join? t.token = some join →
    ∀ ⦃ts us : List Located⦄ ⦃e e' : Expr⦄, Phrase spells format l ts e →
      Phrase spells format l.tighter us e' → Phrase spells format l (ts ++ t :: us) (join e e')

theorem sound_chainFrom {join? : Joining} {operand : Parser Expr} {l : Level}
    (hjoin : Joins join? spells format l)
    (hend : join? .finish = none)
    (h : Sound operand (Phrase spells format l.tighter)) (n : Nat) {used ts rest : List Located}
    {e e' : Expr} (he : Phrase spells format l used e)
    (hread : chainFrom join? operand n e ts = .ok (e', rest)) :
    ∃ used', used ++ ts = used' ++ rest ∧ Phrase spells format l used' e' := by
  induction n generalizing e used ts with
  | zero =>
    cases hread
    exact ⟨used, rfl, he⟩
  | succ n ih =>
    rw [chainFrom] at hread
    split at hread
    · cases hread
      exact ⟨used, rfl, he⟩
    · rename_i join hjoins
      obtain ⟨⟨r, ts₁⟩, hr, hmore⟩ := exists_of_bind hread
      clear hread
      cases ts with
      | nil =>
        rw [peek, hend] at hjoins
        cases hjoins
      | cons t ts =>
        obtain ⟨us, hus, hphrase⟩ := h hr
        obtain rfl : ts = us ++ ts₁ := hus
        obtain ⟨used', heq, hphrase⟩ := ih (hjoin hjoins he hphrase) hmore
        exact ⟨used', by rw [← heq]; simp, hphrase⟩

theorem sound_chain {join? : Joining} {operand : Parser Expr} {l : Level}
    (hjoin : Joins join? spells format l) (hend : join? .finish = none)
    (h : Sound operand (Phrase spells format l.tighter)) :
    Sound (chain join? operand) (Phrase spells format l) := by
  intro ts e rest hread
  obtain ⟨⟨e₁, ts₁⟩, he, hmore⟩ := exists_of_bind hread
  clear hread
  obtain ⟨us, rfl, hphrase⟩ := h he
  exact sound_chainFrom hjoin hend h _ (.tighter hphrase) hmore

theorem joins_product : Joins product? spells format .product := by
  rintro ⟨t, s⟩ join ht ts us e e' he he'
  rw [product?.eq_def] at ht
  dsimp only at ht
  split at ht <;> cases ht
  · exact .binary .mul (by decide) he s he'
  · exact .binary .div (by decide) he s he'
  · exact .binary .mod (by decide) he s he'

theorem joins_sum : Joins sum? spells format .sum := by
  rintro ⟨t, s⟩ join ht ts us e e' he he'
  rw [sum?.eq_def] at ht
  dsimp only at ht
  split at ht <;> cases ht
  · exact .binary .add (by decide) he s he'
  · exact .binary .sub (by decide) he s he'

theorem joins_conjunction : Joins conjunction? spells format .conjunction := by
  rintro ⟨t, s⟩ join ht ts us e e' he he'
  rw [conjunction?.eq_def] at ht
  dsimp only at ht
  split at ht <;> cases ht
  exact .logical .and he s he'

theorem joins_disjunction : Joins disjunction? spells format .disjunction := by
  rintro ⟨t, s⟩ join ht ts us e e' he he'
  rw [disjunction?.eq_def] at ht
  dsimp only at ht
  split at ht <;> cases ht
  exact .logical .or he s he'

/-- Two sums with a comparing token between them are a comparison. -/
theorem phrase_comparison {t : Located} {join : Expr → Expr → Expr}
    (ht : comparison? t.token = some join) {ts us : List Located} {e e' : Expr}
    (he : Phrase spells format .sum ts e) (he' : Phrase spells format .sum us e') :
    Phrase spells format .comparison (ts ++ t :: us) (join e e') := by
  obtain ⟨t, s⟩ := t
  rw [comparison?.eq_def] at ht
  dsimp only at ht
  split at ht <;> cases ht
  · exact .compare .eq rfl he s he'
  · exact .compare .notEq rfl he s he'
  · exact .compare .lt rfl he s he'
  · exact .compare .le rfl he s he'
  · exact .compare .gt rfl he s he'
  · exact .compare .ge rfl he s he'

theorem sound_sum (h : Sound inner spells) :
    Sound (sum inner format) (Phrase spells format .sum) :=
  sound_chain joins_sum rfl (sound_chain joins_product rfl (sound_signed h))

theorem sound_comparison (h : Sound inner spells) :
    Sound (comparison inner format) (Phrase spells format .comparison) := by
  intro ts e rest hread
  obtain ⟨⟨l, ts₁⟩, hl, hmore⟩ := exists_of_bind hread
  clear hread
  obtain ⟨us, rfl, hleft⟩ := sound_sum h hl
  dsimp only at hmore
  split at hmore
  · cases hmore
    exact ⟨us, rfl, .tighter hleft⟩
  · rename_i join hjoin
    obtain ⟨⟨r, ts₂⟩, hr, hmore⟩ := exists_of_bind hmore
    cases hmore
    cases ts₁ with
    | nil => cases hjoin
    | cons t ts₁ =>
      obtain ⟨vs, hvs, hright⟩ := sound_sum h hr
      obtain rfl : ts₁ = vs ++ ts₂ := hvs
      exact ⟨us ++ t :: vs, by simp, phrase_comparison hjoin hleft hright⟩

theorem sound_negation (h : Sound inner spells) :
    Sound (negation inner format) (Phrase spells format .negation) := by
  intro ts e rest hread
  fun_induction negation inner format ts generalizing e rest with
  | case1 s ts ih =>
    obtain ⟨⟨e₁, ts₁⟩, he, hread⟩ := exists_of_bind hread
    cases hread
    obtain ⟨us, rfl, hphrase⟩ := ih he
    exact ⟨_ :: us, rfl, .unary .not s hphrase⟩
  | case2 ts _ =>
    obtain ⟨us, rfl, hphrase⟩ := sound_comparison h hread
    exact ⟨us, rfl, .tighter hphrase⟩

theorem sound_disjunction (h : Sound inner spells) :
    Sound (disjunction inner format) (Phrase spells format .disjunction) :=
  sound_chain joins_disjunction rfl (sound_chain joins_conjunction rfl (sound_negation h))

end Inner

/-- **Expression parsers read expressions.** -/
theorem sound_expressionAt (format : FormatParser) (n : Nat) :
    Sound (expressionAt format n) (Expression format) := by
  induction n with
  | zero => exact fun ts e rest hread => by cases hread
  | succ n ih =>
    intro ts e rest hread
    obtain ⟨used, heq, hphrase⟩ := sound_disjunction ih hread
    exact ⟨used, heq, .intro hphrase⟩

end Grammar

end ReactiveScript

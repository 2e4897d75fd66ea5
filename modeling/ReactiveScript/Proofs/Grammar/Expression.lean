import ReactiveScript.Grammar.Expression
import ReactiveScript.Proofs.Checked
import ReactiveScript.Proofs.Token.Position

/-!
# What expression parsers read

A parser reads from the front of its tokens and leaves the tokens behind what it has read.  An
expression begins with a token that comes from the text.

* `Grammar.Leaves` — a parser leaves what stands behind something.
* `Grammar.Begins` — a parser reads a token of the text at least.
* `Grammar.begins_expressionAt` — expressions begin with a token of the text.
-/

set_option autoImplicit false

namespace ReactiveScript

namespace Grammar

variable {α β : Type}

/-- What a parser leaves stands behind what it has read. -/
def Leaves (p : Parser α) : Prop := ∀ ts a rest, p ts = .ok (a, rest) → rest <:+ ts

/-- A parser reads a token of the text at least. -/
def Begins (p : Parser α) : Prop := ∀ ts a rest, p ts = .ok (a, rest) →
  ∃ t more, ts = t :: more ∧ t.token.isLayout = false ∧ rest <:+ more

theorem Begins.leaves {p : Parser α} (h : Begins p) : Leaves p := by
  intro ts a rest hp
  obtain ⟨t, more, rfl, -, hrest⟩ := h ts a rest hp
  exact hrest.trans (List.suffix_cons t more)

/-! ## Single tokens -/

theorem suffix_expect {t : Token} {ts rest : List Located} (h : expect t ts = .ok rest) :
    rest <:+ ts := by
  cases ts with
  | nil => cases h
  | cons x ts =>
    rw [expect] at h
    split at h
    · cases h
      exact List.suffix_cons x _
    · cases h

theorem leaves_expectName : Leaves expectName := by
  intro ts a rest h
  rw [expectName.eq_def] at h
  split at h
  · cases h
    exact List.suffix_cons _ _
  · cases h

theorem suffix_skipLines (ts : List Located) : skipLines ts <:+ ts := by
  fun_induction skipLines ts with
  | case1 s ts ih => exact ih.trans (List.suffix_cons _ ts)
  | case2 ts => exact List.suffix_refl ts

theorem suffix_joinTexts (ts : List Located) : (joinTexts ts).2 <:+ ts := by
  fun_induction joinTexts ts with
  | case1 s span ts more rest hjoin ih =>
    rw [hjoin] at ih
    exact ih.trans (List.suffix_cons _ ts)
  | case2 ts => exact List.suffix_refl ts

theorem leaves_afterItem {close : Mark} {more : Parser α} {nothing : α} (h : Leaves more) :
    Leaves (afterItem close more nothing) := by
  intro ts a rest hp
  rw [afterItem.eq_def] at hp
  split at hp
  · exact (h _ _ _ hp).trans (List.suffix_cons _ _)
  · obtain ⟨ts', hexpect, hp⟩ := exists_of_bind hp
    cases hp
    exact suffix_expect hexpect

/-! ## Brackets -/

section Inner

variable {inner : Parser Expr} {format : FormatParser}

theorem leaves_listItems (h : Leaves inner) (n : Nat) : Leaves (listItems inner n) := by
  induction n with
  | zero => exact fun ts a rest hp => by cases hp
  | succ n ih =>
    intro ts a rest hp
    rw [listItems.eq_def] at hp
    dsimp only at hp
    split at hp
    · cases hp
      exact List.suffix_cons _ _
    · obtain ⟨⟨e, ts₁⟩, he, hp⟩ := exists_of_bind hp
      obtain ⟨⟨es, ts₂⟩, hes, hp⟩ := exists_of_bind hp
      cases hp
      exact (leaves_afterItem ih _ _ _ hes).trans (h _ _ _ he)

theorem leaves_dictEntries (h : Leaves inner) (n : Nat) : Leaves (dictEntries inner n) := by
  induction n with
  | zero => exact fun ts a rest hp => by cases hp
  | succ n ih =>
    intro ts a rest hp
    rw [dictEntries.eq_def] at hp
    dsimp only at hp
    split at hp
    · cases hp
      exact List.suffix_cons _ _
    · obtain ⟨⟨k, ts₁⟩, hk, hp⟩ := exists_of_bind hp
      obtain ⟨ts₂, hcolon, hp⟩ := exists_of_bind hp
      obtain ⟨⟨v, ts₃⟩, hv, hp⟩ := exists_of_bind hp
      obtain ⟨⟨es, ts₄⟩, hes, hp⟩ := exists_of_bind hp
      cases hp
      exact (leaves_afterItem ih _ _ _ hes).trans
        ((h _ _ _ hv).trans ((suffix_expect hcolon).trans (h _ _ _ hk)))

theorem begins_primary (h : Leaves inner) : Begins (primary inner format) := by
  intro ts a rest hp
  rw [primary.eq_def] at hp
  split at hp
  · cases hp
    exact ⟨_, _, rfl, rfl, List.suffix_refl _⟩
  · cases hp
    exact ⟨_, _, rfl, rfl, suffix_joinTexts _⟩
  · obtain ⟨pieces, -, hp⟩ := exists_of_bind hp
    cases hp
    exact ⟨_, _, rfl, rfl, List.suffix_refl _⟩
  · cases hp
    exact ⟨_, _, rfl, rfl, List.suffix_refl _⟩
  · cases hp
    exact ⟨_, _, rfl, rfl, List.suffix_refl _⟩
  · cases hp
    exact ⟨_, _, rfl, rfl, List.suffix_refl _⟩
  · cases hp
    exact ⟨_, _, rfl, rfl, List.suffix_refl _⟩
  · obtain ⟨⟨e, ts₁⟩, he, hp⟩ := exists_of_bind hp
    obtain ⟨ts₂, hclose, hp⟩ := exists_of_bind hp
    cases hp
    exact ⟨_, _, rfl, rfl, (suffix_expect hclose).trans (h _ _ _ he)⟩
  · obtain ⟨⟨es, ts₁⟩, hes, hp⟩ := exists_of_bind hp
    cases hp
    exact ⟨_, _, rfl, rfl, leaves_listItems h _ _ _ _ hes⟩
  · obtain ⟨⟨es, ts₁⟩, hes, hp⟩ := exists_of_bind hp
    cases hp
    exact ⟨_, _, rfl, rfl, leaves_dictEntries h _ _ _ _ hes⟩
  · cases hp

/-! ## Calls, items and attributes -/

theorem leaves_arguments (h : Leaves inner) (n : Nat) (seen : List String) :
    Leaves (arguments inner n seen) := by
  induction n generalizing seen with
  | zero => exact fun ts a rest hp => by cases hp
  | succ n ih =>
    intro ts a rest hp
    rw [arguments.eq_def] at hp
    dsimp only at hp
    split at hp
    · cases hp
      exact List.suffix_cons _ _
    · split at hp
      · cases hp
      · obtain ⟨⟨e, ts₁⟩, he, hp⟩ := exists_of_bind hp
        obtain ⟨⟨⟨args, kws⟩, ts₂⟩, hmore, hp⟩ := exists_of_bind hp
        cases hp
        refine (leaves_afterItem (ih _) _ _ _ hmore).trans ((h _ _ _ he).trans ?_)
        exact (List.suffix_cons _ _).trans (List.suffix_cons _ _)
    · split at hp
      · cases hp
      · obtain ⟨⟨e, ts₁⟩, he, hp⟩ := exists_of_bind hp
        obtain ⟨⟨⟨args, kws⟩, ts₂⟩, hmore, hp⟩ := exists_of_bind hp
        cases hp
        exact (leaves_afterItem (ih _) _ _ _ hmore).trans (h _ _ _ he)

theorem leaves_trailers (h : Leaves inner) (n : Nat) (e : Expr) :
    Leaves (trailers inner n e) := by
  induction n generalizing e with
  | zero =>
    intro ts a rest hp
    cases hp
    exact List.suffix_refl _
  | succ n ih =>
    intro ts a rest hp
    rw [trailers.eq_def] at hp
    dsimp only at hp
    split at hp
    · split at hp
      · obtain ⟨⟨⟨args, kws⟩, ts₁⟩, hargs, hp⟩ := exists_of_bind hp
        exact (ih _ _ _ _ hp).trans
          ((leaves_arguments h _ _ _ _ _ hargs).trans (List.suffix_cons _ _))
      · cases hp
    · obtain ⟨⟨i, ts₁⟩, hi, hp⟩ := exists_of_bind hp
      obtain ⟨ts₂, hclose, hp⟩ := exists_of_bind hp
      exact (ih _ _ _ _ hp).trans
        ((suffix_expect hclose).trans ((h _ _ _ hi).trans (List.suffix_cons _ _)))
    · obtain ⟨⟨a', ts₁⟩, hname, hp⟩ := exists_of_bind hp
      exact (ih _ _ _ _ hp).trans ((leaves_expectName _ _ _ hname).trans (List.suffix_cons _ _))
    · cases hp
      exact List.suffix_refl _

/-- What follows the first part of a phrase leaves what stands behind it. -/
theorem Begins.andThen {p : Parser α} {f : α → Parser β} (hp : Begins p)
    (hf : ∀ a, Leaves (f a)) : Begins fun ts => p ts >>= fun x => f x.1 x.2 := by
  intro ts b rest h
  obtain ⟨⟨a, ts₁⟩, ha, hrest⟩ := exists_of_bind h
  obtain ⟨t, more, rfl, ht, hmore⟩ := hp _ _ _ ha
  exact ⟨t, more, rfl, ht, (hf a _ _ _ hrest).trans hmore⟩

theorem begins_applied (h : Leaves inner) : Begins (applied inner format) :=
  (begins_primary h).andThen (f := fun e ts => trailers inner ts.length e ts)
    fun e ts => leaves_trailers h ts.length e ts

/-! ## Operators -/

theorem begins_signed (h : Leaves inner) : Begins (signed inner format) := by
  intro ts a rest hp
  fun_induction signed inner format ts generalizing a rest with
  | case1 s ts ih =>
    obtain ⟨⟨e, ts₁⟩, he, hp⟩ := exists_of_bind hp
    cases hp
    obtain ⟨t, more, rfl, -, hmore⟩ := ih _ _ he
    exact ⟨_, _, rfl, rfl, hmore.trans (List.suffix_cons t more)⟩
  | case2 ts _ => exact begins_applied h _ _ _ hp

theorem leaves_chainFrom {join? : Joining} {operand : Parser Expr} (h : Leaves operand) (n : Nat)
    (l : Expr) : Leaves (chainFrom join? operand n l) := by
  induction n generalizing l with
  | zero =>
    intro ts a rest hp
    cases hp
    exact List.suffix_refl _
  | succ n ih =>
    intro ts a rest hp
    rw [chainFrom] at hp
    split at hp
    · cases hp
      exact List.suffix_refl _
    · obtain ⟨⟨r, ts₁⟩, hr, hp⟩ := exists_of_bind hp
      exact (ih _ _ _ _ hp).trans ((h _ _ _ hr).trans (List.drop_suffix 1 ts))

theorem begins_chain {join? : Joining} {operand : Parser Expr} (h : Begins operand) :
    Begins (chain join? operand) :=
  h.andThen (f := fun l ts => chainFrom join? operand ts.length l ts)
    fun l ts => leaves_chainFrom h.leaves ts.length l ts

theorem begins_sum (h : Leaves inner) : Begins (sum inner format) :=
  begins_chain (begins_chain (begins_signed h))

theorem begins_comparison (h : Leaves inner) : Begins (comparison inner format) := by
  have hsum : Begins (sum inner format) := begins_sum h
  intro ts a rest hp
  obtain ⟨⟨l, ts₁⟩, hl, hjoin⟩ := exists_of_bind hp
  obtain ⟨t, more, rfl, ht, hmore⟩ := hsum _ _ _ hl
  refine ⟨t, more, rfl, ht, .trans ?_ hmore⟩
  dsimp only at hjoin
  split at hjoin
  · cases hjoin
    exact List.suffix_refl _
  · obtain ⟨⟨r, ts₂⟩, hr, hjoin⟩ := exists_of_bind hjoin
    cases hjoin
    exact (hsum.leaves _ _ _ hr).trans (List.drop_suffix 1 ts₁)

theorem begins_negation (h : Leaves inner) : Begins (negation inner format) := by
  intro ts a rest hp
  fun_induction negation inner format ts generalizing a rest with
  | case1 s ts ih =>
    obtain ⟨⟨e, ts₁⟩, he, hp⟩ := exists_of_bind hp
    cases hp
    obtain ⟨t, more, rfl, -, hmore⟩ := ih _ _ he
    exact ⟨_, _, rfl, rfl, hmore.trans (List.suffix_cons t more)⟩
  | case2 ts _ => exact begins_comparison h _ _ _ hp

end Inner

/-- **Expressions begin with a token of the text.** -/
theorem begins_expressionAt (format : FormatParser) (n : Nat) : Begins (expressionAt format n) := by
  induction n with
  | zero => exact fun ts a rest hp => by cases hp
  | succ n ih =>
    have hdisjunction : Begins (disjunction (expressionAt format n) format) :=
      begins_chain (begins_chain (begins_negation ih.leaves))
    exact hdisjunction

end Grammar

end ReactiveScript

import Mathlib.Data.List.Forall2
import ReactiveScript.Proofs.Grammar.Expression
import ReactiveScript.Proofs.Text.Brackets

/-!
# Reading the same elsewhere

What a parser reads does not depend on where lines end, and a parser whose parsers for nested
phrases read more reads no less itself.  Every phrase closes the brackets that it opens.  These
three facts are shown together, in one walk through the grammar.

* `Grammar.Alike` — tokens that differ in the place of an end at most.
* `Grammar.Past` — how the tokens of a phrase change the number of open brackets.
* `Grammar.Follows` — one parser reads whatever another one reads.
* `Grammar.follows_expressionAt` — expressions are read alike and close what they open.
* `Grammar.balanced_marks` — the delimiters of a whole expression are balanced.
-/

set_option autoImplicit false

namespace ReactiveScript

namespace Grammar

open Text

variable {α β : Type}

/-! ## Tokens that differ in the place of an end -/

/-- Two tokens are the same, or one that layout adds in two places. -/
def Alike (t t' : Located) : Prop := t' = t ∨ t.token.isLayout = true ∧ t'.token = t.token

/-- Tokens alike, one by one. -/
abbrev AllAlike (ts ts' : List Located) : Prop := List.Forall₂ Alike ts ts'

theorem Alike.token {t t' : Located} (h : Alike t t') : t'.token = t.token := by
  rcases h with rfl | ⟨-, h⟩
  · rfl
  · exact h

/-- Tokens of the text are alike only if they are the same. -/
theorem Alike.eq {t t' : Located} (h : Alike t t') (ht : t.token.isLayout = false) : t' = t := by
  rcases h with rfl | ⟨hlayout, -⟩
  · rfl
  · rw [ht] at hlayout
    cases hlayout

theorem allAlike_refl (ts : List Located) : AllAlike ts ts :=
  List.forall₂_same.2 fun _ _ => Or.inl rfl

theorem peek_eq {ts ts' : List Located} (h : AllAlike ts ts') : peek ts' = peek ts := by
  cases h with
  | nil => rfl
  | cons h _ => exact h.token

theorem AllAlike.drop {ts ts' : List Located} (h : AllAlike ts ts') :
    AllAlike (ts.drop 1) (ts'.drop 1) := by
  cases h with
  | nil => exact List.Forall₂.nil
  | cons _ h => exact h

/-- A token of the text in front stands in front in both places. -/
theorem AllAlike.exists_cons {t : Token} {s : Span} {ts ts' : List Located}
    (h : AllAlike (⟨t, s⟩ :: ts) ts') (ht : t.isLayout = false) :
    ∃ us, ts' = ⟨t, s⟩ :: us ∧ AllAlike ts us := by
  cases h with
  | cons h htail => exact ⟨_, by rw [h.eq ht], htail⟩

theorem AllAlike.exists_cons_right {t : Token} {s : Span} {ts us : List Located}
    (h : AllAlike ts (⟨t, s⟩ :: us)) (ht : t.isLayout = false) : ∃ ts', ts = ⟨t, s⟩ :: ts' := by
  cases h with
  | cons h htail =>
    exact ⟨_, by rw [← h.eq (h.token ▸ ht)]⟩

/-! ## The brackets of a phrase -/

/-- A text that takes the number of open brackets from `m` to `n`, and closes none that was open
before. -/
def Turns (m n : Nat) (cs : List Char) : Prop := ∀ d, depthAfter (d + m) cs = some (d + n)

/-- What stands in front of `rest` takes the number of open brackets from `m` to `n`. -/
def Past (m n : Nat) (ts rest : List Located) : Prop :=
  ∃ used, ts = used ++ rest ∧ Turns m n (marks used)

namespace Past

variable {m n k : Nat} {ts ts' rest : List Located}

theorem refl (n : Nat) (ts : List Located) : Past n n ts ts := ⟨[], rfl, fun _ => rfl⟩

theorem trans (h : Past m k ts ts') (h' : Past k n ts' rest) : Past m n ts rest := by
  obtain ⟨used, rfl, hused⟩ := h
  obtain ⟨used', rfl, hused'⟩ := h'
  refine ⟨used ++ used', (List.append_assoc ..).symm, fun d => ?_⟩
  rw [marks, List.flatMap_append, depthAfter_append]
  exact (congrArg (Option.bind · _) (hused d)).trans (hused' d)

/-- One token more in front. -/
theorem cons {t : Token} {s : Span} (ht : Turns m k t.marks) (h : Past k n ts rest) :
    Past m n (⟨t, s⟩ :: ts) rest :=
  Past.trans ⟨[⟨t, s⟩], rfl, by simpa [marks] using ht⟩ h

/-- The same behind one more open bracket. -/
theorem inside (h : Past m n ts rest) : Past (m + 1) (n + 1) ts rest := by
  obtain ⟨used, rfl, hused⟩ := h
  refine ⟨used, rfl, fun d => ?_⟩
  rw [show d + (m + 1) = d + 1 + m by omega, hused (d + 1)]
  congr 1
  omega

end Past

/-! ## Parsers that read the same -/

/-- `p'` reads whatever `p` reads, also where lines end elsewhere, and what is read takes the number
of open brackets from `m` to `n`. -/
def Follows (m n : Nat) (p p' : Parser α) : Prop :=
  ∀ ⦃ts ts' : List Located⦄ ⦃a : α⦄ ⦃rest : List Located⦄, AllAlike ts ts' → p ts = .ok (a, rest) →
    ∃ rest', p' ts' = .ok (a, rest') ∧ AllAlike rest rest' ∧ Past m n ts rest

theorem follows_expect {m n : Nat} {t : Token} (ht : Turns m n t.marks)
    {ts ts' rest : List Located} (halike : AllAlike ts ts') (h : expect t ts = .ok rest) :
    ∃ rest', expect t ts' = .ok rest' ∧ AllAlike rest rest' ∧ Past m n ts rest := by
  cases halike with
  | nil => cases h
  | @cons x x' ts us hx htail =>
    rw [expect] at h
    split at h
    · rename_i hxt
      cases h
      refine ⟨us, ?_, htail, Past.cons (s := x.span) (t := x.token) ?_ (Past.refl n _)⟩
      · rw [expect, if_pos (hx.token.trans hxt)]
      · rwa [hxt]
    · cases h

theorem follows_expectName : Follows 0 0 expectName expectName := by
  intro ts ts' a rest halike h
  rw [expectName.eq_def] at h
  split at h
  · cases h
    obtain ⟨us, rfl, htail⟩ := halike.exists_cons rfl
    exact ⟨us, rfl, htail, .cons (fun _ => rfl) (.refl 0 _)⟩
  · cases h

theorem follows_skipLines {ts ts' : List Located} (halike : AllAlike ts ts') :
    AllAlike (skipLines ts) (skipLines ts') := by
  fun_induction skipLines ts generalizing ts' with
  | case1 s ts ih =>
    cases halike with
    | @cons _ x' _ us hx htail =>
      obtain ⟨t, s'⟩ := x'
      obtain rfl : t = .newline := hx.token
      rw [skipLines]
      exact ih htail
  | case2 ts hne =>
    rw [skipLines.eq_def]
    split
    · cases halike with
      | @cons x _ _ _ hx _ =>
        obtain ⟨t, s'⟩ := x
        obtain rfl : t = .newline := hx.token.symm
        exact absurd rfl (hne _ _)
    · exact halike

theorem follows_joinTexts {ts ts' : List Located} (halike : AllAlike ts ts') :
    (joinTexts ts').1 = (joinTexts ts).1 ∧ AllAlike (joinTexts ts).2 (joinTexts ts').2 ∧
      Past 0 0 ts (joinTexts ts).2 := by
  fun_induction joinTexts ts generalizing ts' with
  | case1 s span ts more rest hjoin ih =>
    obtain ⟨us, rfl, htail⟩ := halike.exists_cons rfl
    rw [hjoin] at ih
    obtain ⟨hmore, hrest, hpast⟩ := ih htail
    exact ⟨congrArg (s ++ ·) hmore, hrest, .cons (fun _ => rfl) hpast⟩
  | case2 ts hne =>
    rw [joinTexts.eq_def]
    split
    · obtain ⟨us, rfl⟩ := halike.exists_cons_right rfl
      exact absurd rfl (hne _ _ _)
    · exact ⟨rfl, halike, .refl 0 ts⟩

theorem follows_afterItem {close : Mark} {more more' : Parser α} {nothing : α}
    (hclose : Turns 1 0 (Token.mark close).marks) (hmore : Follows 1 0 more more') :
    Follows 1 0 (afterItem close more nothing) (afterItem close more' nothing) := by
  intro ts ts' a rest halike h
  rw [afterItem.eq_def] at h
  split at h
  · obtain ⟨us, rfl, htail⟩ := halike.exists_cons rfl
    obtain ⟨rest', hrest, halike', hpast⟩ := hmore htail h
    exact ⟨rest', hrest, halike', .cons (fun _ => rfl) hpast⟩
  · rename_i hne
    obtain ⟨ts₁, hexpect, h⟩ := exists_of_bind h
    cases h
    obtain ⟨rest', hrest, halike', hpast⟩ := follows_expect hclose halike hexpect
    refine ⟨rest', ?_, halike', hpast⟩
    rw [afterItem.eq_def]
    split
    · obtain ⟨us, rfl⟩ := halike.exists_cons_right rfl
      exact absurd rfl (hne _ _)
    · exact bind_eq_ok hrest rfl

/-! ## Brackets -/

section Inner

variable {inner inner' : Parser Expr} {format format' : FormatParser}

theorem follows_listItems (hinner : Follows 0 0 inner inner') (n : Nat) :
    Follows 1 0 (listItems inner n) (listItems inner' n) := by
  induction n with
  | zero => exact fun ts ts' a rest _ h => by cases h
  | succ n ih =>
    intro ts ts' a rest halike h
    rw [listItems.eq_def] at h
    dsimp only at h
    split at h
    · cases h
      obtain ⟨us, rfl, htail⟩ := halike.exists_cons rfl
      exact ⟨us, rfl, htail, .cons (fun _ => rfl) (.refl 0 _)⟩
    · rename_i hne
      obtain ⟨⟨e, ts₁⟩, he, h⟩ := exists_of_bind h
      obtain ⟨⟨es, ts₂⟩, hes, h⟩ := exists_of_bind h
      cases h
      obtain ⟨us₁, he', halike₁, hpast₁⟩ := hinner halike he
      obtain ⟨us₂, hes', halike₂, hpast₂⟩ := follows_afterItem (fun _ => rfl) ih halike₁ hes
      refine ⟨us₂, ?_, halike₂, hpast₁.inside.trans hpast₂⟩
      rw [listItems.eq_def]
      dsimp only
      split
      · obtain ⟨vs, rfl⟩ := halike.exists_cons_right rfl
        exact absurd rfl (hne _ _)
      · exact bind_eq_ok he' (bind_eq_ok hes' rfl)

theorem follows_dictEntries (hinner : Follows 0 0 inner inner') (n : Nat) :
    Follows 1 0 (dictEntries inner n) (dictEntries inner' n) := by
  induction n with
  | zero => exact fun ts ts' a rest _ h => by cases h
  | succ n ih =>
    intro ts ts' a rest halike h
    rw [dictEntries.eq_def] at h
    dsimp only at h
    split at h
    · cases h
      obtain ⟨us, rfl, htail⟩ := halike.exists_cons rfl
      exact ⟨us, rfl, htail, .cons (fun _ => rfl) (.refl 0 _)⟩
    · rename_i hne
      obtain ⟨⟨k, ts₁⟩, hk, h⟩ := exists_of_bind h
      obtain ⟨ts₂, hcolon, h⟩ := exists_of_bind h
      obtain ⟨⟨v, ts₃⟩, hv, h⟩ := exists_of_bind h
      obtain ⟨⟨es, ts₄⟩, hes, h⟩ := exists_of_bind h
      cases h
      obtain ⟨us₁, hk', halike₁, hpast₁⟩ := hinner halike hk
      obtain ⟨us₂, hcolon', halike₂, hpast₂⟩ :=
        follows_expect (m := 0) (n := 0) (fun _ => rfl) halike₁ hcolon
      obtain ⟨us₃, hv', halike₃, hpast₃⟩ := hinner halike₂ hv
      obtain ⟨us₄, hes', halike₄, hpast₄⟩ := follows_afterItem (fun _ => rfl) ih halike₃ hes
      refine ⟨us₄, ?_, halike₄, ((hpast₁.trans hpast₂).trans hpast₃).inside.trans hpast₄⟩
      rw [dictEntries.eq_def]
      dsimp only
      split
      · obtain ⟨vs, rfl⟩ := halike.exists_cons_right rfl
        exact absurd rfl (hne _ _)
      · exact bind_eq_ok hk' (bind_eq_ok hcolon' (bind_eq_ok hv' (bind_eq_ok hes' rfl)))

/-- A token that is an expression by itself. -/
theorem follows_single {t : Token} {s : Span} {ts ts' : List Located} {p' : Parser Expr} {e : Expr}
    (halike : AllAlike (⟨t, s⟩ :: ts) ts') (ht : t.isLayout = false) (hmarks : Turns 0 0 t.marks)
    (hp : ∀ us, p' (⟨t, s⟩ :: us) = .ok (e, us)) :
    ∃ rest', p' ts' = .ok (e, rest') ∧ AllAlike ts rest' ∧ Past 0 0 (⟨t, s⟩ :: ts) ts := by
  obtain ⟨us, rfl, htail⟩ := halike.exists_cons ht
  exact ⟨us, hp us, htail, .cons hmarks (.refl 0 _)⟩

theorem follows_primary (hinner : Follows 0 0 inner inner')
    (hformat : ∀ raw s ps, format raw s = .ok ps → format' raw s = .ok ps) :
    Follows 0 0 (primary inner format) (primary inner' format') := by
  intro ts ts' a rest halike h
  rw [primary.eq_def] at h
  split at h
  · cases h
    exact follows_single halike rfl (fun _ => rfl) fun _ => rfl
  · cases h
    obtain ⟨us, rfl, htail⟩ := halike.exists_cons rfl
    obtain ⟨hmore, hrest, hpast⟩ := follows_joinTexts htail
    exact ⟨(joinTexts us).2, by rw [← hmore]; rfl, hrest, .cons (fun _ => rfl) hpast⟩
  · rename_i raw s ts
    obtain ⟨pieces, hpieces, h⟩ := exists_of_bind h
    cases h
    exact follows_single halike rfl (fun _ => rfl) fun us =>
      bind_eq_ok (hformat _ _ _ hpieces) rfl
  · cases h
    exact follows_single halike rfl (fun _ => rfl) fun _ => rfl
  · cases h
    exact follows_single halike rfl (fun _ => rfl) fun _ => rfl
  · cases h
    exact follows_single halike rfl (fun _ => rfl) fun _ => rfl
  · cases h
    exact follows_single halike rfl (fun _ => rfl) fun _ => rfl
  · obtain ⟨us, rfl, htail⟩ := halike.exists_cons rfl
    obtain ⟨⟨e, ts₁⟩, he, h⟩ := exists_of_bind h
    obtain ⟨ts₂, hclose, h⟩ := exists_of_bind h
    cases h
    obtain ⟨us₁, he', halike₁, hpast₁⟩ := hinner htail he
    obtain ⟨us₂, hclose', halike₂, hpast₂⟩ :=
      follows_expect (m := 1) (n := 0) (fun _ => rfl) halike₁ hclose
    exact ⟨us₂, bind_eq_ok he' (bind_eq_ok hclose' rfl), halike₂,
      .cons (fun _ => rfl) (hpast₁.inside.trans hpast₂)⟩
  · obtain ⟨us, rfl, htail⟩ := halike.exists_cons rfl
    obtain ⟨⟨es, ts₁⟩, hes, h⟩ := exists_of_bind h
    cases h
    obtain ⟨us₁, hes', halike₁, hpast₁⟩ := follows_listItems hinner _ htail hes
    refine ⟨us₁, ?_, halike₁, .cons (fun _ => rfl) hpast₁⟩
    rw [htail.length_eq] at hes'
    exact bind_eq_ok hes' rfl
  · obtain ⟨us, rfl, htail⟩ := halike.exists_cons rfl
    obtain ⟨⟨es, ts₁⟩, hes, h⟩ := exists_of_bind h
    cases h
    obtain ⟨us₁, hes', halike₁, hpast₁⟩ := follows_dictEntries hinner _ htail hes
    refine ⟨us₁, ?_, halike₁, .cons (fun _ => rfl) hpast₁⟩
    rw [htail.length_eq] at hes'
    exact bind_eq_ok hes' rfl
  · cases h

/-! ## Calls, items and attributes -/

theorem follows_arguments (hinner : Follows 0 0 inner inner') (n : Nat) (seen : List String) :
    Follows 1 0 (arguments inner n seen) (arguments inner' n seen) := by
  induction n generalizing seen with
  | zero => exact fun ts ts' a rest _ h => by cases h
  | succ n ih =>
    intro ts ts' a rest halike h
    rw [arguments.eq_def] at h
    dsimp only at h
    split at h
    · cases h
      obtain ⟨us, rfl, htail⟩ := halike.exists_cons rfl
      exact ⟨us, rfl, htail, .cons (fun _ => rfl) (.refl 0 _)⟩
    · rename_i k s _ ts
      obtain ⟨us, rfl, htail⟩ := halike.exists_cons rfl
      obtain ⟨vs, rfl, hargument⟩ := htail.exists_cons rfl
      split at h
      · cases h
      · rename_i hseen
        obtain ⟨⟨e, ts₁⟩, he, h⟩ := exists_of_bind h
        obtain ⟨⟨⟨args, kws⟩, ts₂⟩, hmore, h⟩ := exists_of_bind h
        cases h
        obtain ⟨us₁, he', halike₁, hpast₁⟩ := hinner hargument he
        obtain ⟨us₂, hmore', halike₂, hpast₂⟩ :=
          follows_afterItem (fun _ => rfl) (ih _) halike₁ hmore
        refine ⟨us₂, ?_, halike₂,
          .cons (fun _ => rfl) (.cons (fun _ => rfl) (hpast₁.inside.trans hpast₂))⟩
        rw [arguments.eq_def]
        dsimp only
        rw [if_neg hseen]
        exact bind_eq_ok he' (bind_eq_ok hmore' rfl)
    · rename_i hclose hkeyword
      split at h
      · cases h
      · rename_i hseen
        obtain ⟨⟨e, ts₁⟩, he, h⟩ := exists_of_bind h
        obtain ⟨⟨⟨args, kws⟩, ts₂⟩, hmore, h⟩ := exists_of_bind h
        cases h
        obtain ⟨us₁, he', halike₁, hpast₁⟩ := hinner halike he
        obtain ⟨us₂, hmore', halike₂, hpast₂⟩ :=
          follows_afterItem (fun _ => rfl) (ih _) halike₁ hmore
        refine ⟨us₂, ?_, halike₂, hpast₁.inside.trans hpast₂⟩
        rw [arguments.eq_def]
        dsimp only
        split
        · obtain ⟨vs, rfl⟩ := halike.exists_cons_right rfl
          exact absurd rfl (hclose _ _)
        · obtain ⟨vs, rfl⟩ := halike.exists_cons_right rfl
          obtain ⟨us, hus, htail⟩ := halike.exists_cons rfl
          cases hus
          obtain ⟨vs, rfl⟩ := htail.exists_cons_right rfl
          exact absurd rfl (hkeyword _ _ _ _)
        · rw [if_neg hseen]
          exact bind_eq_ok he' (bind_eq_ok hmore' rfl)

theorem follows_trailers (hinner : Follows 0 0 inner inner') (n : Nat) (e : Expr) :
    Follows 0 0 (trailers inner n e) (trailers inner' n e) := by
  induction n generalizing e with
  | zero =>
    intro ts ts' a rest halike h
    cases h
    exact ⟨ts', rfl, halike, .refl 0 ts⟩
  | succ n ih =>
    intro ts ts' a rest halike h
    rw [trailers.eq_def] at h
    dsimp only at h
    split at h
    · obtain ⟨us, rfl, htail⟩ := halike.exists_cons rfl
      split at h
      · obtain ⟨⟨⟨args, kws⟩, ts₁⟩, hargs, h⟩ := exists_of_bind h
        obtain ⟨us₁, hargs', halike₁, hpast₁⟩ := follows_arguments hinner _ _ htail hargs
        obtain ⟨us₂, hmore, halike₂, hpast₂⟩ := ih _ halike₁ h
        rw [htail.length_eq] at hargs'
        exact ⟨us₂, bind_eq_ok hargs' hmore, halike₂,
          .cons (fun _ => rfl) (hpast₁.trans hpast₂)⟩
      · cases h
    · obtain ⟨us, rfl, htail⟩ := halike.exists_cons rfl
      obtain ⟨⟨i, ts₁⟩, hi, h⟩ := exists_of_bind h
      obtain ⟨ts₂, hclose, h⟩ := exists_of_bind h
      obtain ⟨us₁, hi', halike₁, hpast₁⟩ := hinner htail hi
      obtain ⟨us₂, hclose', halike₂, hpast₂⟩ :=
        follows_expect (m := 1) (n := 0) (fun _ => rfl) halike₁ hclose
      obtain ⟨us₃, hmore, halike₃, hpast₃⟩ := ih _ halike₂ h
      exact ⟨us₃, bind_eq_ok hi' (bind_eq_ok hclose' hmore), halike₃,
        .cons (fun _ => rfl) ((hpast₁.inside.trans hpast₂).trans hpast₃)⟩
    · obtain ⟨us, rfl, htail⟩ := halike.exists_cons rfl
      obtain ⟨⟨a', ts₁⟩, hname, h⟩ := exists_of_bind h
      obtain ⟨us₁, hname', halike₁, hpast₁⟩ := follows_expectName htail hname
      obtain ⟨us₂, hmore, halike₂, hpast₂⟩ := ih _ halike₁ h
      exact ⟨us₂, bind_eq_ok hname' hmore, halike₂, .cons (fun _ => rfl) (hpast₁.trans hpast₂)⟩
    · rename_i hparen hbracket hdot
      cases h
      refine ⟨ts', ?_, halike, .refl 0 ts⟩
      rw [trailers.eq_def]
      dsimp only
      split
      · obtain ⟨vs, rfl⟩ := halike.exists_cons_right rfl
        exact absurd rfl (hparen _ _)
      · obtain ⟨vs, rfl⟩ := halike.exists_cons_right rfl
        exact absurd rfl (hbracket _ _)
      · obtain ⟨vs, rfl⟩ := halike.exists_cons_right rfl
        exact absurd rfl (hdot _ _)
      · rfl

/-- What follows the first part of a phrase may depend on that part, and on how many tokens are
left. -/
theorem Follows.andThen {m n k : Nat} {p p' : Parser α} (f f' : α → Nat → Parser β)
    (hp : Follows m k p p') (hf : ∀ a i, Follows k n (f a i) (f' a i)) :
    Follows m n (fun ts => p ts >>= fun x => f x.1 x.2.length x.2)
      (fun ts => p' ts >>= fun x => f' x.1 x.2.length x.2) := by
  intro ts ts' b rest halike h
  obtain ⟨⟨a, ts₁⟩, ha, h⟩ := exists_of_bind h
  obtain ⟨us₁, ha', halike₁, hpast₁⟩ := hp halike ha
  obtain ⟨us₂, hf', halike₂, hpast₂⟩ := hf _ _ halike₁ h
  rw [halike₁.length_eq] at hf'
  exact ⟨us₂, bind_eq_ok ha' hf', halike₂, hpast₁.trans hpast₂⟩

theorem follows_applied (hinner : Follows 0 0 inner inner')
    (hformat : ∀ raw s ps, format raw s = .ok ps → format' raw s = .ok ps) :
    Follows 0 0 (applied inner format) (applied inner' format') :=
  (follows_primary hinner hformat).andThen (fun e n => trailers inner n e)
    (fun e n => trailers inner' n e) fun e n => follows_trailers hinner n e

/-! ## Operators -/

theorem follows_signed (hinner : Follows 0 0 inner inner')
    (hformat : ∀ raw s ps, format raw s = .ok ps → format' raw s = .ok ps) :
    Follows 0 0 (signed inner format) (signed inner' format') := by
  intro ts ts' a rest halike h
  fun_induction signed inner format ts generalizing ts' a rest with
  | case1 s ts ih =>
    obtain ⟨us, rfl, htail⟩ := halike.exists_cons rfl
    obtain ⟨⟨e, ts₁⟩, he, h⟩ := exists_of_bind h
    cases h
    obtain ⟨us₁, he', halike₁, hpast₁⟩ := ih htail he
    refine ⟨us₁, ?_, halike₁, .cons (fun _ => rfl) hpast₁⟩
    rw [signed]
    exact bind_eq_ok he' rfl
  | case2 ts hne =>
    obtain ⟨us₁, ha, halike₁, hpast₁⟩ := follows_applied hinner hformat halike h
    refine ⟨us₁, ?_, halike₁, hpast₁⟩
    rw [signed.eq_def]
    split
    · obtain ⟨vs, rfl⟩ := halike.exists_cons_right rfl
      exact absurd rfl (hne _ _)
    · exact ha

/-- An operator that joins two operands is no bracket, and layout adds none. -/
def Joining.Plain (join? : Joining) : Prop :=
  ∀ t, join? t ≠ none → t.isLayout = false ∧ Turns 0 0 t.marks

/-- What is left behind an operator. -/
theorem Joining.Plain.past {join? : Joining} (hjoin : join?.Plain) {ts : List Located}
    (h : join? (peek ts) ≠ none) : Past 0 0 ts (ts.drop 1) := by
  cases ts with
  | nil => cases (hjoin .finish h).1
  | cons t ts => exact .cons (hjoin _ h).2 (.refl 0 ts)

theorem follows_chainFrom {join? : Joining} (hjoin : join?.Plain) {operand operand' : Parser Expr}
    (hoperand : Follows 0 0 operand operand') (n : Nat) (l : Expr) :
    Follows 0 0 (chainFrom join? operand n l) (chainFrom join? operand' n l) := by
  induction n generalizing l with
  | zero =>
    intro ts ts' a rest halike h
    cases h
    exact ⟨ts', rfl, halike, .refl 0 ts⟩
  | succ n ih =>
    intro ts ts' a rest halike h
    rw [chainFrom] at h
    split at h
    · rename_i hnone
      cases h
      refine ⟨ts', ?_, halike, .refl 0 ts⟩
      rw [chainFrom, peek_eq halike, hnone]
    · rename_i join hsome
      obtain ⟨⟨r, ts₁⟩, hr, h⟩ := exists_of_bind h
      obtain ⟨us₁, hr', halike₁, hpast₁⟩ := hoperand halike.drop hr
      obtain ⟨us₂, hmore, halike₂, hpast₂⟩ := ih _ halike₁ h
      refine ⟨us₂, ?_, halike₂, (Past.trans ?_ hpast₁).trans hpast₂⟩
      · rw [chainFrom, peek_eq halike, hsome]
        exact bind_eq_ok hr' hmore
      · exact hjoin.past (by rw [hsome]; exact Option.some_ne_none join)

theorem follows_chain {join? : Joining} (hjoin : join?.Plain) {operand operand' : Parser Expr}
    (hoperand : Follows 0 0 operand operand') :
    Follows 0 0 (chain join? operand) (chain join? operand') :=
  hoperand.andThen (fun l n => chainFrom join? operand n l)
    (fun l n => chainFrom join? operand' n l) fun l n => follows_chainFrom hjoin hoperand n l

end Inner

theorem plain_product? : Joining.Plain product? := by
  intro t h
  rw [product?.eq_def] at h
  split at h
  case h_4 => exact absurd rfl h
  all_goals exact ⟨rfl, fun _ => rfl⟩

theorem plain_sum? : Joining.Plain sum? := by
  intro t h
  rw [sum?.eq_def] at h
  split at h
  case h_3 => exact absurd rfl h
  all_goals exact ⟨rfl, fun _ => rfl⟩

theorem plain_comparison? : Joining.Plain comparison? := by
  intro t h
  rw [comparison?.eq_def] at h
  split at h
  case h_7 => exact absurd rfl h
  all_goals exact ⟨rfl, fun _ => rfl⟩

theorem plain_conjunction? : Joining.Plain conjunction? := by
  intro t h
  rw [conjunction?.eq_def] at h
  split at h
  case h_2 => exact absurd rfl h
  all_goals exact ⟨rfl, fun _ => rfl⟩

theorem plain_disjunction? : Joining.Plain disjunction? := by
  intro t h
  rw [disjunction?.eq_def] at h
  split at h
  case h_2 => exact absurd rfl h
  all_goals exact ⟨rfl, fun _ => rfl⟩

section Inner

variable {inner inner' : Parser Expr} {format format' : FormatParser}

theorem follows_comparison (hinner : Follows 0 0 inner inner')
    (hformat : ∀ raw s ps, format raw s = .ok ps → format' raw s = .ok ps) :
    Follows 0 0 (comparison inner format) (comparison inner' format') := by
  have hsum : Follows 0 0 (sum inner format) (sum inner' format') :=
    follows_chain plain_sum? (follows_chain plain_product? (follows_signed hinner hformat))
  intro ts ts' a rest halike h
  obtain ⟨⟨l, ts₁⟩, hl, h⟩ := exists_of_bind h
  obtain ⟨us₁, hl', halike₁, hpast₁⟩ := hsum halike hl
  dsimp only at h
  split at h
  · rename_i hnone
    cases h
    refine ⟨us₁, bind_eq_ok hl' ?_, halike₁, hpast₁⟩
    dsimp only
    rw [peek_eq halike₁, hnone]
  · rename_i join hsome
    obtain ⟨⟨r, ts₂⟩, hr, h⟩ := exists_of_bind h
    cases h
    obtain ⟨us₂, hr', halike₂, hpast₂⟩ := hsum halike₁.drop hr
    have hoperator : Past 0 0 ts₁ (ts₁.drop 1) :=
      plain_comparison?.past (by rw [hsome]; exact Option.some_ne_none join)
    refine ⟨us₂, bind_eq_ok hl' ?_, halike₂, (hpast₁.trans hoperator).trans hpast₂⟩
    dsimp only
    rw [peek_eq halike₁, hsome]
    exact bind_eq_ok hr' rfl

theorem follows_negation (hinner : Follows 0 0 inner inner')
    (hformat : ∀ raw s ps, format raw s = .ok ps → format' raw s = .ok ps) :
    Follows 0 0 (negation inner format) (negation inner' format') := by
  intro ts ts' a rest halike h
  fun_induction negation inner format ts generalizing ts' a rest with
  | case1 s ts ih =>
    obtain ⟨us, rfl, htail⟩ := halike.exists_cons rfl
    obtain ⟨⟨e, ts₁⟩, he, h⟩ := exists_of_bind h
    cases h
    obtain ⟨us₁, he', halike₁, hpast₁⟩ := ih htail he
    refine ⟨us₁, ?_, halike₁, .cons (fun _ => rfl) hpast₁⟩
    rw [negation]
    exact bind_eq_ok he' rfl
  | case2 ts hne =>
    obtain ⟨us₁, ha, halike₁, hpast₁⟩ := follows_comparison hinner hformat halike h
    refine ⟨us₁, ?_, halike₁, hpast₁⟩
    rw [negation.eq_def]
    split
    · obtain ⟨vs, rfl⟩ := halike.exists_cons_right rfl
      exact absurd rfl (hne _ _)
    · exact ha

end Inner

/-! ## Expressions -/

variable {format format' : FormatParser}

/-- **Expressions are read alike wherever lines end, and close the brackets that they open.** -/
theorem follows_expressionAt (hformat : ∀ raw s ps, format raw s = .ok ps → format' raw s = .ok ps)
    (n : Nat) : Follows 0 0 (expressionAt format n) (expressionAt format' n) := by
  induction n with
  | zero => exact fun ts ts' a rest _ h => by cases h
  | succ n ih =>
    have hdisjunction : Follows 0 0 (disjunction (expressionAt format n) format)
        (disjunction (expressionAt format' n) format') :=
      follows_chain plain_disjunction?
        (follows_chain plain_conjunction? (follows_negation ih hformat))
    exact hdisjunction

theorem follows_wholeExpression
    (hformat : ∀ raw s ps, format raw s = .ok ps → format' raw s = .ok ps)
    {ts ts' : List Located} {e : Expr} (halike : AllAlike ts ts')
    (h : wholeExpression format ts = .ok e) : wholeExpression format' ts' = .ok e := by
  obtain ⟨⟨e', ts₁⟩, he, h⟩ := exists_of_bind h
  obtain ⟨ts₂, hend, h⟩ := exists_of_bind h
  cases h
  obtain ⟨us₁, he', halike₁, -⟩ := follows_expressionAt hformat _ halike he
  obtain ⟨us₂, hend', -, -⟩ := follows_expect (m := 0) (n := 0) (fun _ => rfl)
    (follows_skipLines halike₁) hend
  rw [halike.length_eq] at he'
  exact bind_eq_ok he' (bind_eq_ok hend' rfl)

/-- What stands behind a whole expression starts with an end. -/
theorem exists_cons_of_end {ts ts' : List Located}
    (h : expect .finish (skipLines ts) = .ok ts') :
    ∃ t more, ts = t :: more ∧ t.token.isLayout = true := by
  rw [skipLines.eq_def] at h
  split at h
  · exact ⟨_, _, rfl, rfl⟩
  · cases ts with
    | nil => cases h
    | cons t more =>
      rw [expect] at h
      split at h
      · rename_i hfinish
        exact ⟨t, more, rfl, by rw [hfinish]; rfl⟩
      · cases h

/-- The delimiters of a whole expression are balanced. -/
theorem balanced_marks {body ends : List Located} {e : Expr}
    (hbody : ∀ t ∈ body, t.token.isLayout = false) (hends : ∀ t ∈ ends, t.token.isLayout = true)
    (h : wholeExpression format (body ++ ends) = .ok e) : Balanced (marks body) := by
  obtain ⟨⟨e', rest⟩, he, h⟩ := exists_of_bind h
  obtain ⟨_, hend, -⟩ := exists_of_bind h
  obtain ⟨-, -, -, used, hused, hturns⟩ :=
    follows_expressionAt (fun _ _ _ h => h) _ (allAlike_refl _) he
  obtain ⟨t, more, rfl, ht⟩ := exists_cons_of_end hend
  rcases List.append_eq_append_iff.1 hused with ⟨more', rfl, hmore⟩ | ⟨more', rfl, hmore⟩
  · have hnone : marks more' = [] := by
      refine List.flatMap_eq_nil_iff.2 fun t ht => ?_
      have hlayout := hends t (hmore ▸ List.mem_append_left _ ht)
      obtain ⟨t, s⟩ := t
      cases t <;> first | rfl | cases hlayout
    have hall := hturns 0
    rwa [marks, List.flatMap_append, ← marks, ← marks, hnone, List.append_nil] at hall
  · cases more' with
    | nil =>
      rw [List.append_nil]
      exact hturns 0
    | cons t' more' =>
      obtain ⟨rfl, -⟩ := List.cons.inj hmore
      have htext := hbody t (List.mem_append_right _ (List.mem_cons_self ..))
      rw [ht] at htext
      cases htext

end Grammar

end ReactiveScript

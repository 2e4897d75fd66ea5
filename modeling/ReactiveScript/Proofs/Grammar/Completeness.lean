import ReactiveScript.Proofs.Grammar.Bounds
import ReactiveScript.Proofs.Grammar.Soundness

/-!
# What the parsers do not miss

Whatever is a phrase is read as one, up to its end, provided that the token behind it does not go on
with it.  A level whose phrases group to the left reads its operands in a loop: behind a phrase the
parser is somewhere in the loop, with enough rounds left for everything that may follow.

* `Grammar.Level.Ends` — a token does not go on with the phrases of a level.
* `Grammar.Level.parser` — the parser of a level, and `Grammar.Level.resume` the rest of its loop.
* `Grammar.Complete` — a parser reads every phrase below a length.
* `Grammar.Phrase.reads` — the parser of a level reads its phrases.
* `Grammar.complete_expressionAt` — expression parsers read every expression.
-/

set_option autoImplicit false

namespace ReactiveScript

namespace Grammar

/-! ## Tokens behind a phrase -/

namespace Level

/-- How tight a level is, the tightest last. -/
def rank : Level → Nat
  | .disjunction => 0
  | .conjunction => 1
  | .negation => 2
  | .comparison => 3
  | .sum => 4
  | .product => 5
  | .signed => 6
  | .applied => 7
  | .primary => 8

/-- The operators that join phrases of a level. -/
def join? : Level → Joining
  | .disjunction => disjunction?
  | .conjunction => conjunction?
  | .comparison => comparison?
  | .sum => sum?
  | .product => product?
  | _ => fun _ => none

/-- Whether a token goes on with a phrase of a level without joining it to another one. -/
def trails : Level → Token → Bool
  | .applied, .mark .openParen | .applied, .mark .openBracket | .applied, .mark .dot => true
  | .primary, .text _ => true
  | _, _ => false

/-- A token does not go on with the phrases of a level or a tighter one. -/
def Ends (l : Level) (t : Token) : Prop :=
  ∀ l' : Level, l.rank ≤ l'.rank → l'.join? t = none ∧ l'.trails t = false

theorem rank_le_tighter (l : Level) : l.rank ≤ l.tighter.rank := by
  cases l <;> decide

theorem Ends.of_le {l l' : Level} {t : Token} (h : l.Ends t) (hle : l.rank ≤ l'.rank) :
    l'.Ends t := fun l'' hle' => h l'' (Nat.le_trans hle hle')

theorem Ends.tighter {l : Level} {t : Token} (h : l.Ends t) : l.tighter.Ends t :=
  h.of_le l.rank_le_tighter

/-- A logical operator ends its left operand's last operand. -/
theorem ends_logical (op : LogicalOp) : (ofLogical op).tighter.Ends (.keyword op.keyword) := by
  intro l h
  cases op <;> cases l <;> first | exact ⟨rfl, rfl⟩ | exact absurd h (by decide)

theorem ends_binary (op : BinaryOp) : (ofBinary op).tighter.Ends (.mark op.mark) := by
  intro l h
  cases op <;> cases l <;> first | exact ⟨rfl, rfl⟩ | exact absurd h (by decide)

end Level

/-- A token at which every expression ends. -/
def EndsAll (t : Token) : Prop := Level.Ends .disjunction t

theorem endsAll_comma : EndsAll (.mark .comma) := fun l _ => by cases l <;> exact ⟨rfl, rfl⟩

theorem endsAll_colon : EndsAll (.mark .colon) := fun l _ => by cases l <;> exact ⟨rfl, rfl⟩

theorem endsAll_closeParen : EndsAll (.mark .closeParen) := fun l _ => by
  cases l <;> exact ⟨rfl, rfl⟩

theorem endsAll_closeBracket : EndsAll (.mark .closeBracket) := fun l _ => by
  cases l <;> exact ⟨rfl, rfl⟩

theorem endsAll_closeBrace : EndsAll (.mark .closeBrace) := fun l _ => by
  cases l <;> exact ⟨rfl, rfl⟩

theorem endsAll_newline : EndsAll .newline := fun l _ => by cases l <;> exact ⟨rfl, rfl⟩

theorem endsAll_finish : EndsAll .finish := fun l _ => by cases l <;> exact ⟨rfl, rfl⟩

/-! ## Lists in brackets -/

/-- A parser reads every expression of less than `n` tokens. -/
def Complete (inner : Parser Expr) (spells : Spelling Expr) (n : Nat) : Prop :=
  ∀ ⦃ts : List Located⦄ ⦃e : Expr⦄, ts.length < n → spells ts e →
    ∀ ⦃rest : List Located⦄, EndsAll (peek rest) → inner (ts ++ rest) = .ok (e, rest)

theorem Complete.mono {inner : Parser Expr} {spells : Spelling Expr} {m n : Nat}
    (h : Complete inner spells n) (hle : m ≤ n) : Complete inner spells m :=
  fun _ _ hlt hspells => h (Nat.lt_of_lt_of_le hlt hle) hspells

theorem afterItem_close {α : Type} {close : Mark} (hclose : close ≠ .comma) (more : Parser α)
    (nothing : α) (s : Span) (ts : List Located) :
    afterItem close more nothing (⟨.mark close, s⟩ :: ts) = .ok (nothing, ts) := by
  rw [afterItem.eq_def]
  split
  · rename_i heq
    cases heq
    exact absurd rfl hclose
  · exact bind_eq_ok (if_pos rfl) rfl

theorem expect_cons (t : Token) (s : Span) (ts : List Located) :
    expect t (⟨t, s⟩ :: ts) = .ok ts := if_pos rfl

section Inner

variable {inner : Parser Expr} {format : FormatParser}

/-- An expression does not start with a closing bracket. -/
theorem Expression.peek_ne {ts : List Located} {e : Expr} (h : Expression format ts e) {m : Mark}
    (hm : m.isClosing = true) (rest : List Located) : peek (ts ++ rest) ≠ .mark m := by
  obtain ⟨t, more, rfl, hstarts⟩ := h.exists_cons
  intro heq
  have htoken : t.token = .mark m := heq
  rw [htoken] at hstarts
  rcases hstarts with hprimary | ⟨hminus, -⟩ | ⟨hnot, -⟩
  · cases m <;> simp only [Mark.isClosing, startsPrimary, reduceCtorEq] at hm hprimary
  · cases hminus
    cases hm
  · cases hnot

theorem listItems_succ (n : Nat) {ts : List Located} (h : peek ts ≠ .mark .closeBracket) :
    listItems inner (n + 1) ts = inner ts >>= fun r =>
      afterItem .closeBracket (listItems inner n) [] r.2 >>= fun r' =>
        .ok (r.1 :: r'.1, r'.2) := by
  rw [listItems.eq_def]
  dsimp only
  split
  · exact absurd rfl h
  · rfl

theorem dictEntries_succ (n : Nat) {ts : List Located} (h : peek ts ≠ .mark .closeBrace) :
    dictEntries inner (n + 1) ts = inner ts >>= fun r => expect (.mark .colon) r.2 >>= fun ts =>
      inner ts >>= fun r' => afterItem .closeBrace (dictEntries inner n) [] r'.2 >>= fun r'' =>
        .ok ((r.1, r'.1) :: r''.1, r''.2) := by
  rw [dictEntries.eq_def]
  dsimp only
  split
  · exact absurd rfl h
  · rfl

theorem listItems_of_items {ts : List Located} {es : List Expr}
    (h : Items (Expression format) ts es) {n : Nat} (hn : ts.length < n)
    (hinner : Complete inner (Expression format) (ts.length + 1)) (s : Span) (rest : List Located) :
    listItems inner n (ts ++ ⟨.mark .closeBracket, s⟩ :: rest) = .ok (es, rest) := by
  induction h generalizing n with
  | nil =>
    cases n with
    | zero => cases hn
    | succ n => rfl
  | last h =>
    cases n with
    | zero => cases hn
    | succ n =>
      rw [listItems_succ n (h.peek_ne rfl _)]
      exact bind_eq_ok (hinner (Nat.lt_succ_self _) h endsAll_closeBracket)
        (bind_eq_ok (afterItem_close (by decide) _ _ s rest) rfl)
  | @cons us vs e es h s' hs ih =>
    cases n with
    | zero => cases hn
    | succ n =>
      rw [List.length_append, List.length_cons] at hn hinner
      rw [List.append_assoc, List.cons_append, listItems_succ n (h.peek_ne rfl _)]
      exact bind_eq_ok (hinner (by omega) h endsAll_comma)
        (bind_eq_ok (ih (by omega) (hinner.mono (by omega))) rfl)

theorem dictEntries_of_items {ts : List Located} {es : List (Expr × Expr)}
    (h : Items (Entry (Expression format)) ts es) {n : Nat} (hn : ts.length < n)
    (hinner : Complete inner (Expression format) (ts.length + 1)) (s : Span) (rest : List Located) :
    dictEntries inner n (ts ++ ⟨.mark .closeBrace, s⟩ :: rest) = .ok (es, rest) := by
  induction h generalizing n with
  | nil =>
    cases n with
    | zero => cases hn
    | succ n => rfl
  | last h =>
    cases n with
    | zero => cases hn
    | succ n =>
      obtain ⟨hk, t, hv⟩ := h
      rw [List.length_append, List.length_cons] at hn hinner
      rw [List.append_assoc, List.cons_append, dictEntries_succ n (hk.peek_ne rfl _)]
      exact bind_eq_ok (hinner (by omega) hk endsAll_colon) (bind_eq_ok (expect_cons _ t _)
        (bind_eq_ok (hinner (by omega) hv endsAll_closeBrace)
          (bind_eq_ok (afterItem_close (by decide) _ _ s rest) rfl)))
  | cons h s' hs ih =>
    cases n with
    | zero => cases hn
    | succ n =>
      obtain ⟨hk, t, hv⟩ := h
      simp only [List.length_append, List.length_cons] at hn hinner
      rw [List.append_assoc, List.append_assoc, List.cons_append, List.cons_append,
        dictEntries_succ n (hk.peek_ne rfl _)]
      exact bind_eq_ok (hinner (by omega) hk endsAll_colon) (bind_eq_ok (expect_cons _ t _)
        (bind_eq_ok (hinner (by omega) hv endsAll_comma)
          (bind_eq_ok (ih (by omega) (hinner.mono (by omega))) rfl)))

/-! ### Arguments -/

theorem arguments_keyword (n : Nat) {seen : List String} {k : String} (hk : k ∉ seen) (s s' : Span)
    (ts : List Located) :
    arguments inner (n + 1) seen (⟨.name k, s⟩ :: ⟨.mark .assign, s'⟩ :: ts) =
      inner ts >>= fun r => afterItem .closeParen (arguments inner n (k :: seen)) ([], []) r.2 >>=
        fun r' => .ok ((r'.1.1, (k, r.1) :: r'.1.2), r'.2) := by
  rw [arguments, if_neg hk]

theorem arguments_positional (n : Nat) {ts : List Located} (h : peek ts ≠ .mark .closeParen)
    (hassign : ¬NameAssign ts) :
    arguments inner (n + 1) [] ts =
      inner ts >>= fun r => afterItem .closeParen (arguments inner n []) ([], []) r.2 >>=
        fun r' => .ok ((r.1 :: r'.1.1, r'.1.2), r'.2) := by
  rw [arguments.eq_def]
  dsimp only
  split
  · exact absurd rfl h
  · exact absurd ⟨_, _, _, _, rfl⟩ hassign
  · rw [if_neg (by simp)]

theorem Expression.not_nameAssign_append {ts : List Located} {e : Expr}
    (h : Expression format ts e) {t : Located} (ht : t.token ≠ .mark .assign)
    (rest : List Located) : ¬NameAssign (ts ++ t :: rest) := by
  obtain ⟨x, more, rfl, -⟩ := h.exists_cons
  exact fun hassign => h.not_nameAssign (nameAssign_append (List.cons_ne_nil x more) ht hassign)

/-- The first of some arguments is a positional one, or a keyword argument if there are no
others. -/
theorem cons_eq_arguments {a : Expr ⊕ String × Expr} {as : List (Expr ⊕ String × Expr)}
    {args : List Expr} {kws : List (String × Expr)}
    (h : a :: as = args.map Sum.inl ++ kws.map Sum.inr) :
    (∃ e args', a = .inl e ∧ args = e :: args' ∧ as = args'.map Sum.inl ++ kws.map Sum.inr) ∨
      ∃ k e kws', a = .inr (k, e) ∧ args = [] ∧ kws = (k, e) :: kws' ∧
        as = [].map Sum.inl ++ kws'.map Sum.inr := by
  cases args with
  | cons e args' =>
    obtain ⟨rfl, rfl⟩ := List.cons.inj h
    exact Or.inl ⟨e, args', rfl, rfl, rfl⟩
  | nil =>
    cases kws with
    | nil => cases h
    | cons kw kws' =>
      obtain ⟨rfl, rfl⟩ := List.cons.inj h
      exact Or.inr ⟨kw.1, kw.2, kws', rfl, rfl, rfl, rfl⟩

/-- An argument and what the parser makes of those behind it. -/
theorem arguments_cons {us : List Located} {a : Expr ⊕ String × Expr}
    (h : Argument (Expression format) us a) {seen : List String} {args : List Expr}
    {kws : List (String × Expr)} {as : List (Expr ⊕ String × Expr)}
    (has : a :: as = args.map Sum.inl ++ kws.map Sum.inr) (hkws : (kws.map Prod.fst).Nodup)
    (hfresh : ∀ k ∈ kws.map Prod.fst, k ∉ seen) (hargs : seen ≠ [] → args = []) (n : Nat)
    (hinner : Complete inner (Expression format) (us.length + 1)) {t : Located}
    (ht : EndsAll t.token) (hassign : t.token ≠ .mark .assign) {ts rest : List Located}
    (hrest : ∀ seen' args' kws', as = args'.map Sum.inl ++ kws'.map Sum.inr →
      (kws'.map Prod.fst).Nodup → (∀ k ∈ kws'.map Prod.fst, k ∉ seen') →
      (seen' ≠ [] → args' = []) →
      afterItem .closeParen (arguments inner n seen') ([], []) (t :: ts) =
        .ok ((args', kws'), rest)) :
    arguments inner (n + 1) seen (us ++ t :: ts) = .ok ((args, kws), rest) := by
  rcases cons_eq_arguments has with ⟨e, args', rfl, rfl, hsplit⟩ |
    ⟨k, e, kws', rfl, rfl, rfl, hsplit⟩
  · obtain rfl : seen = [] := Decidable.not_not.1 fun hseen => List.cons_ne_nil e args' (hargs hseen)
    cases h with
    | positional h =>
      rw [arguments_positional n (h.peek_ne rfl _) (h.not_nameAssign_append hassign ts)]
      exact bind_eq_ok (hinner (Nat.lt_succ_self _) h ht)
        (bind_eq_ok (hrest [] args' kws hsplit hkws hfresh (absurd rfl)) rfl)
  · obtain ⟨hnew, hkws⟩ := List.nodup_cons.1 hkws
    obtain ⟨hk, hfresh⟩ := List.forall_mem_cons.1 hfresh
    cases h with
    | keyword k s s' h =>
      rw [List.length_cons, List.length_cons] at hinner
      rw [List.cons_append, List.cons_append, arguments_keyword n hk]
      refine bind_eq_ok (hinner (by omega) h ht)
        (bind_eq_ok (hrest (k :: seen) [] kws' hsplit hkws (fun k' hk' hmem => ?_) fun _ => rfl) rfl)
      rcases List.mem_cons.1 hmem with rfl | hmem
      · exact hnew hk'
      · exact hfresh k' hk' hmem

theorem arguments_of_items {ts : List Located} {as : List (Expr ⊕ String × Expr)}
    (h : Items (Argument (Expression format)) ts as) {seen : List String} {args : List Expr}
    {kws : List (String × Expr)} (has : as = args.map Sum.inl ++ kws.map Sum.inr)
    (hkws : (kws.map Prod.fst).Nodup) (hfresh : ∀ k ∈ kws.map Prod.fst, k ∉ seen)
    (hargs : seen ≠ [] → args = []) {n : Nat} (hn : ts.length < n)
    (hinner : Complete inner (Expression format) (ts.length + 1)) (s : Span) (rest : List Located) :
    arguments inner n seen (ts ++ ⟨.mark .closeParen, s⟩ :: rest) = .ok ((args, kws), rest) := by
  have hnil : ∀ {args : List Expr} {kws : List (String × Expr)},
      [] = args.map Sum.inl ++ kws.map Sum.inr → args = [] ∧ kws = [] := by
    intro args kws hnil
    obtain ⟨hargs, hkws⟩ := List.append_eq_nil_iff.1 hnil.symm
    exact ⟨List.map_eq_nil_iff.1 hargs, List.map_eq_nil_iff.1 hkws⟩
  induction h generalizing n seen args kws with
  | nil =>
    obtain ⟨rfl, rfl⟩ := hnil has
    cases n with
    | zero => cases hn
    | succ n => rfl
  | last h =>
    cases n with
    | zero => cases hn
    | succ n =>
      refine arguments_cons h has hkws hfresh hargs n hinner endsAll_closeParen (by simp) ?_
      intro seen' args' kws' has' _ _ _
      obtain ⟨rfl, rfl⟩ := hnil has'
      exact afterItem_close (by decide) _ _ s rest
  | cons h s' hs ih =>
    cases n with
    | zero => cases hn
    | succ n =>
      rw [List.length_append, List.length_cons] at hn hinner
      rw [List.append_assoc, List.cons_append]
      refine arguments_cons h has hkws hfresh hargs n (hinner.mono (by omega)) endsAll_comma
        (by simp) ?_
      intro seen' args' kws' has' hkws' hfresh' hargs'
      exact ih has' hkws' hfresh' hargs' (by omega) (hinner.mono (by omega))

/-! ## Phrases -/

variable (inner format) in
/-- The parser of a level. -/
def parserOf : Level → Parser Expr
  | .disjunction => disjunction inner format
  | .conjunction => conjunction inner format
  | .negation => negation inner format
  | .comparison => comparison inner format
  | .sum => sum inner format
  | .product => product inner format
  | .signed => signed inner format
  | .applied => applied inner format
  | .primary => primary inner format

/-- Whether the parser of a level reads on in a loop. -/
def Level.loops : Level → Bool
  | .disjunction | .conjunction | .sum | .product | .applied => true
  | _ => false

variable (inner format) in
/-- What the parser of a level does behind a phrase, if its loop has `n` rounds left. -/
def resume (l : Level) (n : Nat) (e : Expr) : Parser Expr :=
  match l with
  | .applied => trailers inner n e
  | .disjunction | .conjunction | .sum | .product =>
    chainFrom l.join? (parserOf inner format l.tighter) n e
  | _ => fun ts => .ok (e, ts)

variable (inner format) in
/-- Behind a phrase of a level its parser is somewhere in its loop, with a round left for every
token.  The token behind the phrase may go on with the loop, but not with the last operand. -/
def Reaches (l : Level) (ts : List Located) (e : Expr) : Prop :=
  ∀ ⦃rest : List Located⦄, (if l.loops then l.tighter else l).Ends (peek rest) →
    ∃ n, rest.length ≤ n ∧ parserOf inner format l (ts ++ rest) = resume inner format l n e rest

variable {l : Level} {ts : List Located} {e : Expr}

theorem chainFrom_of_ends {operand : Parser Expr} (n : Nat) (h : l.Ends (peek ts)) :
    chainFrom l.join? operand n e ts = .ok (e, ts) := by
  cases n with
  | zero => rfl
  | succ n => rw [chainFrom, (h l (Nat.le_refl _)).1]

theorem trailers_of_ends (n : Nat) (h : Level.Ends .applied (peek ts)) :
    trailers inner n e ts = .ok (e, ts) := by
  cases n with
  | zero => rfl
  | succ n =>
    have htrails := (h .applied (Nat.le_refl _)).2
    rw [trailers.eq_def]
    dsimp only
    split
    · cases htrails
    · cases htrails
    · cases htrails
    · rfl

/-- A loop ends at a token that does not go on with it. -/
theorem resume_of_ends (n : Nat) (h : l.Ends (peek ts)) :
    resume inner format l n e ts = .ok (e, ts) := by
  cases l with
  | disjunction => exact chainFrom_of_ends n h
  | conjunction => exact chainFrom_of_ends n h
  | sum => exact chainFrom_of_ends n h
  | product => exact chainFrom_of_ends n h
  | applied => exact trailers_of_ends n h
  | _ => rfl

theorem Reaches.reads (h : Reaches inner format l ts e) {rest : List Located}
    (hrest : l.Ends (peek rest)) : parserOf inner format l (ts ++ rest) = .ok (e, rest) := by
  obtain ⟨n, -, hparser⟩ := @h rest (by split; exacts [hrest.tighter, hrest])
  rw [hparser, resume_of_ends n hrest]

theorem reaches_of_reads (hl : l.loops = false)
    (h : ∀ ⦃rest : List Located⦄, l.Ends (peek rest) →
      parserOf inner format l (ts ++ rest) = .ok (e, rest)) : Reaches inner format l ts e := by
  intro rest hrest
  rw [hl, if_neg Bool.false_ne_true] at hrest
  refine ⟨rest.length, Nat.le_refl _, (h hrest).trans ?_⟩
  cases l <;> first | rfl | cases hl

theorem signed_of_ne (h : peek ts ≠ .mark .minus) :
    signed inner format ts = applied inner format ts := by
  rw [signed.eq_def]
  split
  · exact absurd rfl h
  · rfl

theorem negation_of_ne (h : peek ts ≠ .keyword .kwNot) :
    negation inner format ts = comparison inner format ts := by
  rw [negation.eq_def]
  split
  · exact absurd rfl h
  · rfl

theorem comparison_of_none {rest : List Located} (h : sum inner format ts = .ok (e, rest))
    (hrest : comparison? (peek rest) = none) : comparison inner format ts = .ok (e, rest) := by
  refine bind_eq_ok h ?_
  dsimp only
  rw [hrest]

theorem comparison_of_some {us rest : List Located} {t : Located} {join : Expr → Expr → Expr}
    {r : Expr} (h : sum inner format ts = .ok (e, t :: us)) (ht : comparison? t.token = some join)
    (hr : sum inner format us = .ok (r, rest)) :
    comparison inner format ts = .ok (join e r, rest) := by
  refine bind_eq_ok h ?_
  dsimp only
  rw [show comparison? (peek (t :: us)) = some join from ht]
  exact bind_eq_ok hr rfl

/-- The parser of a level reads the phrases of the next one. -/
theorem Reaches.of_tighter (hphrase : Phrase (Expression format) format l.tighter ts e)
    (h : Reaches inner format l.tighter ts e) : Reaches inner format l ts e := by
  have hreads : ∀ ⦃rest : List Located⦄, l.tighter.Ends (peek rest) →
      parserOf inner format l.tighter (ts ++ rest) = .ok (e, rest) := fun _ => h.reads
  obtain ⟨t, more, rfl, hstarts⟩ := hphrase.exists_cons
  cases l with
  | disjunction => exact fun rest hrest => ⟨rest.length, Nat.le_refl _, bind_of_ok (hreads hrest)⟩
  | conjunction => exact fun rest hrest => ⟨rest.length, Nat.le_refl _, bind_of_ok (hreads hrest)⟩
  | sum => exact fun rest hrest => ⟨rest.length, Nat.le_refl _, bind_of_ok (hreads hrest)⟩
  | product => exact fun rest hrest => ⟨rest.length, Nat.le_refl _, bind_of_ok (hreads hrest)⟩
  | applied => exact fun rest hrest => ⟨rest.length, Nat.le_refl _, bind_of_ok (hreads hrest)⟩
  | primary => exact h
  | negation =>
    refine reaches_of_reads rfl fun rest hrest => ?_
    refine (negation_of_ne fun hnot => ?_).trans (hreads hrest.tighter)
    have htoken : t.token = .keyword .kwNot := hnot
    rw [htoken] at hstarts
    rcases hstarts with h | ⟨h, -⟩ | ⟨-, h⟩ <;> cases h
  | comparison =>
    exact reaches_of_reads rfl fun rest hrest =>
      comparison_of_none (hreads hrest.tighter) (hrest .comparison (Nat.le_refl _)).1
  | signed =>
    refine reaches_of_reads rfl fun rest hrest => ?_
    refine (signed_of_ne fun hminus => ?_).trans (hreads hrest.tighter)
    have htoken : t.token = .mark .minus := hminus
    rw [htoken] at hstarts
    rcases hstarts with h | ⟨-, h⟩ | ⟨h, -⟩ <;> cases h

/-- One more round of a loop: an operator and its operand. -/
theorem chainFrom_cons {join? : Joining} {operand : Parser Expr} {n : Nat} {t : Located}
    {join : Expr → Expr → Expr} (ht : join? t.token = some join) {us rest : List Located}
    {r : Expr} (hr : operand (us ++ rest) = .ok (r, rest)) :
    chainFrom join? operand (n + 1) e (t :: (us ++ rest)) =
      chainFrom join? operand n (join e r) rest := by
  rw [chainFrom, show join? (peek (t :: (us ++ rest))) = some join from ht]
  exact bind_of_ok hr

/-- A phrase, an operator and a phrase of the next level, where the operator groups to the left. -/
theorem Reaches.join {us : List Located} {t : Located} {r : Expr}
    (hl : Reaches inner format l ts e) (join : Expr → Expr → Expr)
    (hr : Reaches inner format l.tighter us r) (hloops : l.loops = true)
    (hjoins : resume inner format l = chainFrom l.join? (parserOf inner format l.tighter))
    (ht : l.join? t.token = some join) (hends : l.tighter.Ends t.token) :
    Reaches inner format l (ts ++ t :: us) (join e r) := by
  intro rest hrest
  rw [hloops, if_pos rfl] at hrest
  obtain ⟨n, hn, hparser⟩ := @hl (t :: (us ++ rest)) (by rw [hloops, if_pos rfl]; exact hends)
  obtain ⟨n, rfl⟩ : ∃ m, n = m + 1 := ⟨n - 1, by rw [List.length_cons] at hn; omega⟩
  refine ⟨n, ?_, ?_⟩
  · rw [List.length_cons, List.length_append] at hn
    omega
  · rw [List.append_assoc, List.cons_append, hparser, hjoins]
    exact chainFrom_cons ht (hr.reads hrest)

/-- Something behind a phrase that `trailers` reads in one round. -/
theorem Reaches.trail {us : List Located} {e' : Expr} (h : Reaches inner format .applied ts e)
    (hends : ∀ rest, Level.Ends .primary (peek (us ++ rest)))
    (hround : ∀ n rest, trailers inner (n + 1) e (us ++ rest) = trailers inner n e' rest)
    (hus : us ≠ []) : Reaches inner format .applied (ts ++ us) e' := by
  intro rest _
  obtain ⟨n, hn, hparser⟩ := h (hends rest)
  have hpos := List.length_pos_iff.2 hus
  rw [List.length_append] at hn
  obtain ⟨n, rfl⟩ : ∃ m, n = m + 1 := ⟨n - 1, by omega⟩
  refine ⟨n, by omega, ?_⟩
  rw [List.append_assoc, hparser]
  exact hround n rest

theorem Reaches.logical {us : List Located} {r : Expr} (op : LogicalOp) (s : Span)
    (hl : Reaches inner format (.ofLogical op) ts e)
    (hr : Reaches inner format (Level.ofLogical op).tighter us r) :
    Reaches inner format (.ofLogical op) (ts ++ ⟨.keyword op.keyword, s⟩ :: us)
      (.logical e.span op e r) := by
  cases op with
  | and => exact hl.join (applyLogical .and) hr rfl rfl rfl (Level.ends_logical .and)
  | or => exact hl.join (applyLogical .or) hr rfl rfl rfl (Level.ends_logical .or)

theorem Reaches.binary {us : List Located} {r : Expr} (op : BinaryOp)
    (hop : .ofBinary op ≠ Level.comparison) (s : Span)
    (hl : Reaches inner format (.ofBinary op) ts e)
    (hr : Reaches inner format (Level.ofBinary op).tighter us r) :
    Reaches inner format (.ofBinary op) (ts ++ ⟨.mark op.mark, s⟩ :: us)
      (.binary e.span op e r) := by
  have hends := Level.ends_binary op
  cases op with
  | add => exact hl.join (applyBinary .add) hr rfl rfl rfl hends
  | sub => exact hl.join (applyBinary .sub) hr rfl rfl rfl hends
  | mul => exact hl.join (applyBinary .mul) hr rfl rfl rfl hends
  | div => exact hl.join (applyBinary .div) hr rfl rfl rfl hends
  | mod => exact hl.join (applyBinary .mod) hr rfl rfl rfl hends
  | _ => exact absurd rfl hop

theorem Reaches.compare {us : List Located} {r : Expr} (op : BinaryOp)
    (hop : .ofBinary op = Level.comparison) (s : Span) (hl : Reaches inner format .sum ts e)
    (hr : Reaches inner format .sum us r) :
    Reaches inner format .comparison (ts ++ ⟨.mark op.mark, s⟩ :: us) (.binary e.span op e r) := by
  have hjoin : comparison? (.mark op.mark) = some (applyBinary op) := by
    cases op <;> first | rfl | cases hop
  have hends : Level.Ends .sum (.mark op.mark) := by
    have hends := Level.ends_binary op
    rwa [hop] at hends
  refine reaches_of_reads rfl fun rest hrest => ?_
  rw [List.append_assoc, List.cons_append]
  have hread : sum inner format (ts ++ ⟨.mark op.mark, s⟩ :: (us ++ rest)) = .ok (e, _) :=
    hl.reads hends
  have hcompared := comparison_of_some hread hjoin (hr.reads hrest.tighter)
  exact hcompared

theorem Reaches.unary (op : UnaryOp) (s : Span) (h : Reaches inner format (.ofUnary op) ts e) :
    Reaches inner format (.ofUnary op) (⟨op.token, s⟩ :: ts) (.unary s op e) := by
  cases op with
  | neg => exact reaches_of_reads rfl fun rest hrest => bind_eq_ok (h.reads hrest) rfl
  | not => exact reaches_of_reads rfl fun rest hrest => bind_eq_ok (h.reads hrest) rfl

theorem joinTexts_append (more : List (String × Span)) {rest : List Located}
    (h : Level.trails .primary (peek rest) = false) :
    joinTexts (more.map (fun m => ⟨.text m.1, m.2⟩) ++ rest) =
      ((more.map Prod.fst).foldr (· ++ ·) "", rest) := by
  induction more with
  | nil =>
    rw [List.map_nil, List.nil_append, joinTexts.eq_def]
    split
    · cases h
    · rfl
  | cons m more ih =>
    rw [List.map_cons, List.cons_append, joinTexts, ih]
    rfl

theorem ends_mark (m : Mark) : Level.Ends .primary (.mark m) := by
  intro l h
  cases l <;> first | exact ⟨rfl, rfl⟩ | exact absurd h (by decide)

theorem trailers_call (n : Nat) {us : List Located} {args : List Expr}
    {kws : List (String × Expr)}
    (hargs : Items (Argument (Expression format)) us (args.map Sum.inl ++ kws.map Sum.inr))
    (hkws : (kws.map Prod.fst).Nodup)
    (hinner : Complete inner (Expression format) (us.length + 1)) (span : Span) (f : String)
    (s s' : Span) (rest : List Located) :
    trailers inner (n + 1) (.name span f)
        (⟨.mark .openParen, s⟩ :: (us ++ [⟨.mark .closeParen, s'⟩]) ++ rest) =
      trailers inner n (.call span f args kws) rest := by
  have hread := arguments_of_items hargs rfl hkws (fun _ _ => List.not_mem_nil (α := String))
    (absurd rfl) (n := (us ++ ⟨.mark .closeParen, s'⟩ :: rest).length + 1)
    (by rw [List.length_append]; omega) hinner s' rest
  rw [List.cons_append, List.append_assoc, List.singleton_append]
  exact bind_of_ok hread

theorem trailers_index (n : Nat) {us : List Located} {i : Expr} (hi : Expression format us i)
    (hinner : Complete inner (Expression format) (us.length + 1)) (e : Expr) (s s' : Span)
    (rest : List Located) :
    trailers inner (n + 1) e
        (⟨.mark .openBracket, s⟩ :: (us ++ [⟨.mark .closeBracket, s'⟩]) ++ rest) =
      trailers inner n (.index e.span e i) rest := by
  have hread : inner (us ++ ⟨.mark .closeBracket, s'⟩ :: rest) = .ok (i, _) :=
    hinner (Nat.lt_succ_self _) hi endsAll_closeBracket
  rw [List.cons_append, List.append_assoc, List.singleton_append]
  exact (bind_of_ok hread).trans (bind_of_ok (expect_cons _ s' rest))

/-- **The parser of a level reads its phrases**, up to what its loop makes of the tokens behind. -/
theorem Phrase.reaches (h : Phrase (Expression format) format l ts e)
    (hinner : Complete inner (Expression format) ts.length) : Reaches inner format l ts e := by
  induction h with
  | tighter h ih => exact (ih hinner).of_tighter h
  | logical op hl s hr ihl ihr =>
    rw [List.length_append, List.length_cons] at hinner
    exact (ihl (hinner.mono (by omega))).logical op s (ihr (hinner.mono (by omega)))
  | compare op hop hl s hr ihl ihr =>
    rw [List.length_append, List.length_cons] at hinner
    exact (ihl (hinner.mono (by omega))).compare op hop s (ihr (hinner.mono (by omega)))
  | binary op hop hl s hr ihl ihr =>
    rw [List.length_append, List.length_cons] at hinner
    exact (ihl (hinner.mono (by omega))).binary op hop s (ihr (hinner.mono (by omega)))
  | unary op s h ih => exact (ih (hinner.mono (Nat.le_succ _))).unary op s
  | call hf s s' hargs hkws ih =>
    rw [List.length_append, List.length_cons, List.length_append] at hinner
    have hname := (ih (hinner.mono (by omega))).of_tighter (l := .applied) hf
    exact hname.trail (fun _ => ends_mark .openParen)
      (fun n => trailers_call n hargs hkws (hinner.mono (by simp; omega)) _ _ s s')
      (List.cons_ne_nil _ _)
  | index he s s' hi ih =>
    rw [List.length_append, List.length_cons, List.length_append] at hinner
    exact (ih (hinner.mono (by omega))).trail (fun _ => ends_mark .openBracket)
      (fun n => trailers_index n hi (hinner.mono (by simp; omega)) _ s s') (List.cons_ne_nil _ _)
  | field he s s' a ih =>
    rw [List.length_append] at hinner
    exact (ih (hinner.mono (by omega))).trail (fun _ => ends_mark .dot) (fun _ _ => rfl)
      (List.cons_ne_nil _ _)
  | number x s => exact reaches_of_reads rfl fun rest _ => rfl
  | text t s more =>
    refine reaches_of_reads rfl fun rest hrest => ?_
    have hjoin := joinTexts_append more (hrest .primary (Nat.le_refl _)).2
    show Except.ok (Expr.literal s (.text (t ++ (joinTexts (_ ++ rest)).1)),
      (joinTexts (_ ++ rest)).2) = _
    rw [hjoin]
  | format h => exact reaches_of_reads rfl fun rest _ => bind_eq_ok h rfl
  | true s => exact reaches_of_reads rfl fun rest _ => rfl
  | false s => exact reaches_of_reads rfl fun rest _ => rfl
  | none s => exact reaches_of_reads rfl fun rest _ => rfl
  | name n s => exact reaches_of_reads rfl fun rest _ => rfl
  | parens s s' h =>
    rw [List.length_cons, List.length_append, List.length_singleton] at hinner
    refine reaches_of_reads rfl fun rest _ => ?_
    rw [List.cons_append, List.append_assoc, List.singleton_append]
    exact bind_eq_ok (hinner (by omega) h endsAll_closeParen)
      (bind_eq_ok (expect_cons _ s' rest) rfl)
  | list s s' h =>
    rw [List.length_cons, List.length_append, List.length_singleton] at hinner
    refine reaches_of_reads rfl fun rest _ => ?_
    rw [List.cons_append, List.append_assoc, List.singleton_append]
    exact bind_eq_ok (listItems_of_items h (by rw [List.length_append]; omega)
      (hinner.mono (by omega)) s' rest) rfl
  | dict s s' h =>
    rw [List.length_cons, List.length_append, List.length_singleton] at hinner
    refine reaches_of_reads rfl fun rest _ => ?_
    rw [List.cons_append, List.append_assoc, List.singleton_append]
    exact bind_eq_ok (dictEntries_of_items h (by rw [List.length_append]; omega)
      (hinner.mono (by omega)) s' rest) rfl

end Inner

/-- **Expression parsers read every expression** that has fewer tokens than brackets may nest. -/
theorem complete_expressionAt (format : FormatParser) (n : Nat) :
    Complete (expressionAt format n) (Expression format) n := by
  induction n with
  | zero => exact fun ts e hlt => absurd hlt (Nat.not_lt_zero _)
  | succ n ih =>
    rintro ts e hlt ⟨hphrase⟩ rest hrest
    exact (hphrase.reaches (ih.mono (Nat.le_of_lt_succ hlt))).reads hrest

/-! ## Whole expressions -/

variable {format : FormatParser}

/-- **A phrase spells one tree.** -/
theorem Expression.unique {ts : List Located} {e e' : Expr} (h : Expression format ts e)
    (h' : Expression format ts e') : e = e' := by
  have hread : expressionAt format (ts.length + 1) (ts ++ []) = .ok (e, []) :=
    complete_expressionAt format _ (Nat.lt_succ_self _) h endsAll_finish
  have hread' : expressionAt format (ts.length + 1) (ts ++ []) = .ok (e', []) :=
    complete_expressionAt format _ (Nat.lt_succ_self _) h' endsAll_finish
  exact (Prod.mk.inj (Except.ok.inj (hread.symm.trans hread'))).1

/-- The tokens of an expression with nothing behind them but ends of lines. -/
def Whole (format : FormatParser) (body : List Located) (e : Expr) : Prop :=
  ∃ phrase lines, body = phrase ++ lines ∧ (∀ t ∈ lines, t.token = .newline) ∧
    Expression format phrase e

theorem exists_skipLines (ts : List Located) :
    ∃ lines, (∀ t ∈ lines, t.token = .newline) ∧ ts = lines ++ skipLines ts := by
  fun_induction skipLines ts with
  | case1 s ts ih =>
    obtain ⟨lines, hlines, hts⟩ := ih
    exact ⟨⟨.newline, s⟩ :: lines, List.forall_mem_cons.2 ⟨rfl, hlines⟩,
      congrArg (⟨.newline, s⟩ :: ·) hts⟩
  | case2 ts => exact ⟨[], List.forall_mem_nil _, rfl⟩

theorem skipLines_append {lines rest : List Located} (h : ∀ t ∈ lines, t.token = .newline)
    (hrest : peek rest ≠ .newline) : skipLines (lines ++ rest) = rest := by
  induction lines with
  | nil =>
    rw [List.nil_append, skipLines.eq_def]
    split
    · exact absurd rfl hrest
    · rfl
  | cons t lines ih =>
    obtain ⟨ht, hlines⟩ := List.forall_mem_cons.1 h
    obtain ⟨token, s⟩ := t
    obtain rfl : token = .newline := ht
    rw [List.cons_append, skipLines]
    exact ih hlines

/-- The one end of some tokens is the last of them. -/
theorem eq_of_finish {body front more : List Located} {last s : Span}
    (hbody : ∀ t ∈ body, t.token ≠ .finish)
    (h : body ++ [⟨.finish, last⟩] = front ++ ⟨.finish, s⟩ :: more) : body = front := by
  rcases List.append_eq_append_iff.1 h with ⟨us, rfl, hus⟩ | ⟨us, rfl, hus⟩
  · cases us with
    | nil => exact (List.append_nil _).symm
    | cons u us =>
      have hlength := congrArg List.length hus
      simp only [List.length_cons, List.length_append, List.length_nil] at hlength
      omega
  · cases us with
    | nil => exact List.append_nil _
    | cons u us =>
      obtain ⟨rfl, -⟩ := List.cons.inj hus
      exact absurd rfl (hbody _ (List.mem_append_right _ (List.mem_cons_self ..)))

theorem whole_of_wholeExpression {body : List Located} (hbody : ∀ t ∈ body, t.token ≠ .finish)
    {last : Span} {e : Expr} (h : wholeExpression format (body ++ [⟨.finish, last⟩]) = .ok e) :
    Whole format body e := by
  obtain ⟨⟨e', rest⟩, he, h⟩ := exists_of_bind h
  obtain ⟨more, hend, h⟩ := exists_of_bind h
  cases h
  obtain ⟨phrase, heq, hphrase⟩ := sound_expressionAt format _ he
  obtain ⟨s, hskip⟩ := expect_eq_ok hend
  obtain ⟨lines, hlines, hrest⟩ := exists_skipLines rest
  rw [hrest, hskip, ← List.append_assoc] at heq
  exact ⟨phrase, lines, eq_of_finish hbody heq, hlines, hphrase⟩

theorem wholeExpression_of_whole {body : List Located} {e : Expr} (h : Whole format body e)
    (last : Span) : wholeExpression format (body ++ [⟨.finish, last⟩]) = .ok e := by
  obtain ⟨phrase, lines, rfl, hlines, hphrase⟩ := h
  have hends : EndsAll (peek (lines ++ [⟨.finish, last⟩])) := by
    cases lines with
    | nil => exact endsAll_finish
    | cons t lines =>
      show EndsAll t.token
      rw [hlines t (List.mem_cons_self ..)]
      exact endsAll_newline
  rw [List.append_assoc]
  refine bind_eq_ok (complete_expressionAt format _ ?_ hphrase hends)
    (bind_eq_ok (a := []) ?_ rfl)
  · rw [List.length_append]
    omega
  · rw [skipLines_append hlines (by simp [peek])]
    exact expect_cons _ last []

/-- **The parser accepts the grammar**: tokens with one end, which is the last of them, are read as
an expression exactly if those in front of the ends of lines are one, and then as the one tree that
they spell.  All others are refused, and no bound on the depth of brackets has a part in that. -/
theorem wholeExpression_grammar (format : FormatParser) (body : List Located) (last : Span)
    (hbody : ∀ t ∈ body, t.token ≠ .finish) :
    (∀ e, wholeExpression format (body ++ [⟨.finish, last⟩]) = .ok e ↔ Whole format body e) ∧
      (∀ phrase e e', Expression format phrase e → Expression format phrase e' → e = e') ∧
      ((∀ e, ¬Whole format body e) →
        ∃ err, wholeExpression format (body ++ [⟨.finish, last⟩]) = .error err) ∧
      ∀ ts, expression format ts = disjunction (expression format) format ts ∧
        ∀ n, ts.length < n → expressionAt format n ts = expression format ts := by
  refine ⟨fun e => ⟨whole_of_wholeExpression hbody, fun h => wholeExpression_of_whole h last⟩,
    fun _ _ _ => Expression.unique, fun hnone => ?_,
    fun ts => ⟨expression_eq format ts, fun _ => expressionAt_eq_expression format⟩⟩
  cases hread : wholeExpression format (body ++ [⟨.finish, last⟩]) with
  | error err => exact ⟨err, rfl⟩
  | ok e => exact absurd (whole_of_wholeExpression hbody hread) (hnone e)

/-- The tokens of `a - b - f(c, k=d)`, with the end of the line. -/
def difference : List Located :=
  [⟨.name "a", ⟨1, 1⟩⟩, ⟨.mark .minus, ⟨1, 3⟩⟩, ⟨.name "b", ⟨1, 5⟩⟩, ⟨.mark .minus, ⟨1, 7⟩⟩,
    ⟨.name "f", ⟨1, 9⟩⟩, ⟨.mark .openParen, ⟨1, 10⟩⟩, ⟨.name "c", ⟨1, 11⟩⟩,
    ⟨.mark .comma, ⟨1, 12⟩⟩, ⟨.name "k", ⟨1, 14⟩⟩, ⟨.mark .assign, ⟨1, 15⟩⟩,
    ⟨.name "d", ⟨1, 16⟩⟩, ⟨.mark .closeParen, ⟨1, 17⟩⟩, ⟨.newline, ⟨1, 18⟩⟩]

/-- A difference is a phrase of the grammar, and groups to the left. -/
theorem wholeExpression_grammar_difference :
    (∀ t ∈ difference, t.token ≠ .finish) ∧
      Whole (fun _ _ => .ok []) difference
        (.binary ⟨1, 1⟩ .sub
          (.binary ⟨1, 1⟩ .sub (.name ⟨1, 1⟩ "a") (.name ⟨1, 5⟩ "b"))
          (.call ⟨1, 9⟩ "f" [.name ⟨1, 11⟩ "c"] [("k", .name ⟨1, 16⟩ "d")])) := by
  have hbody : ∀ t ∈ difference, t.token ≠ .finish := by decide
  exact ⟨hbody, ((wholeExpression_grammar (fun _ _ => .ok []) difference ⟨1, 18⟩ hbody).1 _).1
    (by cbv)⟩

end Grammar

end ReactiveScript

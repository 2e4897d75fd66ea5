import ReactiveScript.Proofs.Grammar.Completeness
import ReactiveScript.Proofs.Grammar.Printed

/-!
# Expressions restored from their tokens

The tokens of a printed expression are a phrase of the grammar, which spells the expression again,
up to its spans.  This needs no precedence: a printed operator application stands in parentheses,
so that every printed expression is an operand of any operator.

* `Grammar.Restores` — tokens spell an expression again, up to its spans.
* `Grammar.ReadsAgain` — the pieces of a printed format string are read again.
* `Grammar.restores_tokens` — the tokens of a printed expression spell it again.
-/

set_option autoImplicit false

namespace ReactiveScript

namespace Expr

variable (move : Span → Span) (rename : String → String)

theorem mapAll_eq_map (es : List Expr) : mapAll move rename es = es.map (mapWith move rename) := by
  induction es with
  | nil => rfl
  | cons e es ih => rw [mapAll, ih, List.map_cons]

theorem mapEntries_eq_map (es : List (Expr × Expr)) :
    mapEntries move rename es = es.map (Prod.map (mapWith move rename) (mapWith move rename)) := by
  induction es with
  | nil => rfl
  | cons e es ih => rw [mapEntries, ih, List.map_cons, Prod.map]

theorem mapKeywords_eq_map (es : List (String × Expr)) :
    mapKeywords move rename es = es.map (Prod.map id (mapWith move rename)) := by
  induction es with
  | nil => rfl
  | cons e es ih => rw [mapKeywords, ih, List.map_cons, Prod.map, id]

end Expr

namespace Grammar

open ReactiveScript.Expr

variable {format : FormatParser} {inner : Spelling Expr} {us : List Located} {e : Expr}

/-! ## Located tokens -/

theorem exists_cons_of_map {t : Token} {ts : List Token} (h : us.map Located.token = t :: ts) :
    ∃ s vs, us = ⟨t, s⟩ :: vs ∧ vs.map Located.token = ts := by
  obtain ⟨⟨t', s⟩, vs, rfl, rfl, hvs⟩ := List.map_eq_cons_iff.1 h
  exact ⟨s, vs, rfl, hvs⟩

theorem exists_append_of_map {ts ts' : List Token} (h : us.map Located.token = ts ++ ts') :
    ∃ vs vs', us = vs ++ vs' ∧ vs.map Located.token = ts ∧ vs'.map Located.token = ts' :=
  List.map_eq_append_iff.1 h

theorem exists_singleton_of_map {t : Token} (h : us.map Located.token = [t]) :
    ∃ s, us = [⟨t, s⟩] := by
  obtain ⟨s, vs, rfl, hvs⟩ := exists_cons_of_map h
  rw [List.map_eq_nil_iff.1 hvs]
  exact ⟨s, rfl⟩

/-- Tokens with another one behind them. -/
theorem exists_concat_of_map {t : Token} {ts : List Token} (h : us.map Located.token = ts ++ [t]) :
    ∃ vs s, us = vs ++ [⟨t, s⟩] ∧ vs.map Located.token = ts := by
  obtain ⟨vs, vs', rfl, hvs, hlast⟩ := exists_append_of_map h
  obtain ⟨s, rfl⟩ := exists_singleton_of_map hlast
  exact ⟨vs, s, rfl, hvs⟩

/-! ## Levels -/

/-- A phrase of the last level but one is a phrase of every level in front of it. -/
theorem Phrase.of_applied (h : Phrase inner format .applied us e) {l : Level} (hl : l ≠ .primary) :
    Phrase inner format l us e := by
  cases l with
  | primary => exact absurd rfl hl
  | applied => exact h
  | signed => exact .tighter h
  | product => exact .tighter (.tighter h)
  | sum => exact .tighter (.tighter (.tighter h))
  | comparison => exact .tighter (.tighter (.tighter (.tighter h)))
  | negation => exact .tighter (.tighter (.tighter (.tighter (.tighter h))))
  | conjunction => exact .tighter (.tighter (.tighter (.tighter (.tighter (.tighter h)))))
  | disjunction =>
    exact .tighter (.tighter (.tighter (.tighter (.tighter (.tighter (.tighter h))))))

/-- A phrase of any level is an expression. -/
theorem Phrase.expression {l : Level} (h : Phrase (Expression format) format l us e) :
    Expression format us e := by
  cases l with
  | disjunction => exact .intro h
  | conjunction => exact .intro (.tighter h)
  | negation => exact .intro (.tighter (.tighter h))
  | comparison => exact .intro (.tighter (.tighter (.tighter h)))
  | sum => exact .intro (.tighter (.tighter (.tighter (.tighter h))))
  | product => exact .intro (.tighter (.tighter (.tighter (.tighter (.tighter h)))))
  | signed => exact .intro (.tighter (.tighter (.tighter (.tighter (.tighter (.tighter h))))))
  | applied => exact .intro (h.of_applied Level.noConfusion)
  | primary => exact .intro (Phrase.of_applied (.tighter h) Level.noConfusion)

/-! ## Items -/

/-- Items are restored one by one. -/
theorem exists_items {α β : Type} {item : Spelling α} {f : α → β} {bs : List β}
    {tss : List (List Token)}
    (h : List.Forall₂ (fun b ts => ∀ us : List Located, us.map Located.token = ts →
      ∃ a, item us a ∧ f a = b) bs tss) (hus : us.map Located.token = separated tss) :
    ∃ as, Items item us as ∧ as.map f = bs := by
  induction h generalizing us with
  | nil =>
    rw [List.map_eq_nil_iff.1 hus]
    exact ⟨[], .nil, rfl⟩
  | @cons b ts bs tss hb hbs ih =>
    cases hbs with
    | nil =>
      rw [separated, List.intercalate_singleton] at hus
      obtain ⟨a, ha, rfl⟩ := hb us hus
      exact ⟨[a], .last ha, rfl⟩
    | cons hb' hbs =>
      rw [separated, List.intercalate_cons_cons, List.append_assoc] at hus
      obtain ⟨vs, vs', rfl, hvs, hmore⟩ := exists_append_of_map hus
      obtain ⟨s, vs', rfl, hrest⟩ := exists_cons_of_map hmore
      obtain ⟨a, ha, rfl⟩ := hb vs hvs
      obtain ⟨as, has, hmap⟩ := ih hrest
      exact ⟨a :: as, .cons ha s has, congrArg (f a :: ·) hmap⟩

/-- What is restored of some things of one kind in front of some of another. -/
theorem exists_of_map_sum {α β γ δ : Type} {f : α → γ} {g : β → δ} {xs : List (α ⊕ β)}
    {cs : List γ} {ds : List δ} (h : xs.map (Sum.map f g) = cs.map Sum.inl ++ ds.map Sum.inr) :
    ∃ (as : List α) (bs : List β), xs = as.map Sum.inl ++ bs.map Sum.inr ∧ as.map f = cs ∧
      bs.map g = ds := by
  induction xs generalizing cs ds with
  | nil =>
    obtain ⟨hcs, hds⟩ := List.append_eq_nil_iff.1 h.symm
    exact ⟨[], [], rfl, (List.map_eq_nil_iff.1 hcs).symm, (List.map_eq_nil_iff.1 hds).symm⟩
  | cons x xs ih =>
    cases cs with
    | cons c cs =>
      obtain ⟨hx, hxs⟩ := List.cons.inj h
      obtain ⟨as, bs, rfl, rfl, rfl⟩ := ih hxs
      cases x with
      | inl a => exact ⟨a :: as, bs, rfl, congrArg (· :: as.map f) (Sum.inl.inj hx), rfl⟩
      | inr b => cases hx
    | nil =>
      cases ds with
      | nil => cases h
      | cons d ds =>
        obtain ⟨hx, hxs⟩ := List.cons.inj h
        have hmore : xs.map (Sum.map f g) = ([] : List γ).map Sum.inl ++ ds.map Sum.inr := hxs
        obtain ⟨as, bs, rfl, has, rfl⟩ := ih hmore
        obtain rfl := List.map_eq_nil_iff.1 has
        cases x with
        | inl a => cases hx
        | inr b => exact ⟨[], b :: bs, rfl, rfl, congrArg (· :: bs.map g) (Sum.inr.inj hx)⟩

/-! ## Expressions -/

/-- Tokens spell an expression again, up to its spans, so that it may stand in front of brackets. -/
def Restores (format : FormatParser) (us : List Located) (e : Expr) : Prop :=
  ∃ e', Phrase (Expression format) format .applied us e' ∧ e'.bare = e.bare

/-- The pieces of a printed format string are read again, up to their spans. -/
def ReadsAgain (format : FormatParser) : Expr → Prop
  | .format s ps => ∀ span, ∃ ps', format (printPieces ps) span = .ok ps' ∧
      (Expr.format span ps').bare = (Expr.format s ps).bare
  | _ => True

/-- What is restored is an expression. -/
theorem Restores.expression (h : Restores format us e) :
    ∃ e', Expression format us e' ∧ e'.bare = e.bare := by
  obtain ⟨e', hphrase, hbare⟩ := h
  exact ⟨e', hphrase.expression, hbare⟩

/-- A phrase in parentheses spells what it spells by itself. -/
theorem restores_parens (ts : List Token)
    (h : us.map Located.token = .mark .openParen :: (ts ++ [.mark .closeParen]))
    (hts : ∀ vs : List Located, vs.map Located.token = ts →
      ∃ e' l, Phrase (Expression format) format l vs e' ∧ e'.bare = e.bare) :
    Restores format us e := by
  obtain ⟨s, vs, rfl, hmore⟩ := exists_cons_of_map h
  obtain ⟨vs, s', rfl, hvs⟩ := exists_concat_of_map hmore
  obtain ⟨e', l, hphrase, hbare⟩ := hts vs hvs
  exact ⟨e', .tighter (.parens s s' hphrase.expression), hbare⟩

theorem restores_literal {s : Span} {v : Value} (hv : v.Literal)
    (h : us.map Located.token = [literalToken v]) : Restores format us (.literal s v) := by
  obtain ⟨s', rfl⟩ := exists_singleton_of_map h
  match v with
  | .null => exact ⟨_, .tighter (.none s'), rfl⟩
  | .bool true => exact ⟨_, .tighter (.true s'), rfl⟩
  | .bool false => exact ⟨_, .tighter (.false s'), rfl⟩
  | .number x => exact ⟨_, .tighter (.number x s'), rfl⟩
  | .text t =>
    refine ⟨_, .tighter (.text t s' []), ?_⟩
    rw [List.map_nil, List.foldr_nil, String.append_empty]
    rfl
  | .list _ | .dict _ => exact hv.elim

theorem bare_list (s : Span) (es : List Expr) :
    (Expr.list s es).bare = .list .none (es.map bare) :=
  congrArg (Expr.list .none) (mapAll_eq_map _ _ es)

theorem bare_dict (s : Span) (es : List (Expr × Expr)) :
    (Expr.dict s es).bare = .dict .none (es.map (Prod.map bare bare)) :=
  congrArg (Expr.dict .none) (mapEntries_eq_map _ _ es)

theorem bare_unary (s : Span) (op : UnaryOp) (e : Expr) :
    (Expr.unary s op e).bare = .unary .none op e.bare := rfl

theorem bare_binary (s : Span) (op : BinaryOp) (l r : Expr) :
    (Expr.binary s op l r).bare = .binary .none op l.bare r.bare := rfl

theorem bare_logical (s : Span) (op : LogicalOp) (l r : Expr) :
    (Expr.logical s op l r).bare = .logical .none op l.bare r.bare := rfl

theorem bare_call (s : Span) (f : String) (args : List Expr) (kws : List (String × Expr)) :
    (Expr.call s f args kws).bare = .call .none f (args.map bare) (kws.map (Prod.map id bare)) :=
  congrArg₂ (Expr.call .none f) (mapAll_eq_map _ _ args) (mapKeywords_eq_map _ _ kws)

theorem bare_index (s : Span) (e i : Expr) :
    (Expr.index s e i).bare = .index .none e.bare i.bare := rfl

theorem bare_attribute (s : Span) (e : Expr) (a : String) :
    (Expr.attribute s e a).bare = .attribute .none e.bare a := rfl

theorem ofBinary_ne_primary (op : BinaryOp) :
    Level.ofBinary op ≠ .primary ∧ (Level.ofBinary op).tighter ≠ .primary := by
  cases op <;> exact ⟨Level.noConfusion, Level.noConfusion⟩

theorem ofLogical_ne_primary (op : LogicalOp) :
    Level.ofLogical op ≠ .primary ∧ (Level.ofLogical op).tighter ≠ .primary := by
  cases op <;> exact ⟨Level.noConfusion, Level.noConfusion⟩

/-- Two restored operands with an operator between them. -/
theorem restores_binary {vs vs' : List Located} {l r : Expr} (s : Span) (op : BinaryOp)
    (hl : Restores format vs l) (hr : Restores format vs' r) :
    ∃ e' level, Phrase (Expression format) format level (vs ++ ⟨.mark op.mark, s⟩ :: vs') e' ∧
      e'.bare = .binary .none op l.bare r.bare := by
  obtain ⟨l', hl', hl⟩ := hl
  obtain ⟨r', hr', hr⟩ := hr
  obtain ⟨hlevel, htighter⟩ := ofBinary_ne_primary op
  by_cases hop : .ofBinary op = Level.comparison
  · exact ⟨_, _, .compare op hop (hl'.of_applied Level.noConfusion) s
      (hr'.of_applied Level.noConfusion), by rw [bare_binary, hl, hr]⟩
  · exact ⟨_, _, .binary op hop (hl'.of_applied hlevel) s (hr'.of_applied htighter),
      by rw [bare_binary, hl, hr]⟩

/-- Expressions whose parts are as `P` says are well formed, and their format strings are read
again. -/
def Suits (format : FormatParser) (P : Expr → Prop) : Prop :=
  ∀ e, All P e → e.Proper ∧ ReadsAgain format e

section Tokens

variable {P : Expr → Prop}

mutual

/-- **The tokens of a printed expression spell it again**, if its format strings are read again. -/
theorem restores_tokens (hP : Suits format P) : (e : Expr) → All P e →
    ∀ us : List Located, us.map Located.token = e.tokens → Restores format us e
  | .literal _ _, h, _, hus => restores_literal (hP _ h).1 hus
  | .name _ n, _, us, hus => by
    obtain ⟨s', rfl⟩ := exists_singleton_of_map hus
    exact ⟨_, .tighter (.name n s'), rfl⟩
  | .format _ ps, h, us, hus => by
    obtain ⟨s', rfl⟩ := exists_singleton_of_map hus
    obtain ⟨ps', hps', hbare⟩ := (hP _ h).2 s'
    exact ⟨_, .tighter (.format hps'), hbare⟩
  | .list _ es, h, us, hus => by
    obtain ⟨s, vs, rfl, hmore⟩ := exists_cons_of_map hus
    obtain ⟨vs, s', rfl, hvs⟩ := exists_concat_of_map hmore
    obtain ⟨es', hes', hbare⟩ := exists_items (restores_allTokens hP es (all_list.1 h).2) hvs
    exact ⟨_, .tighter (.list s s' hes'), by rw [bare_list, bare_list, hbare]⟩
  | .dict _ es, h, us, hus => by
    obtain ⟨s, vs, rfl, hmore⟩ := exists_cons_of_map hus
    obtain ⟨vs, s', rfl, hvs⟩ := exists_concat_of_map hmore
    obtain ⟨es', hes', hbare⟩ := exists_items (restores_entryTokens hP es (all_dict.1 h).2) hvs
    exact ⟨_, .tighter (.dict s s' hes'), by rw [bare_dict, bare_dict, hbare]⟩
  | .unary s op e, h, us, hus => by
    refine restores_parens (op.token :: e.tokens) hus fun vs hvs => ?_
    obtain ⟨s', vs, rfl, hoperand⟩ := exists_cons_of_map hvs
    obtain ⟨e', he', hbare⟩ := restores_tokens hP e (all_unary.1 h).2 vs hoperand
    exact ⟨_, _, .unary op s' (he'.of_applied (by cases op <;> exact Level.noConfusion)),
      by rw [bare_unary, bare_unary, hbare]⟩
  | .binary s op l r, h, us, hus => by
    obtain ⟨-, hl, hr⟩ := all_binary.1 h
    refine restores_parens (l.tokens ++ .mark op.mark :: r.tokens) (by simpa [tokens] using hus)
      fun vs hvs => ?_
    obtain ⟨vs, vs', rfl, hleft, hmore⟩ := exists_append_of_map hvs
    obtain ⟨s', vs', rfl, hright⟩ := exists_cons_of_map hmore
    exact restores_binary s' op (restores_tokens hP l hl vs hleft)
      (restores_tokens hP r hr vs' hright)
  | .logical s op l r, h, us, hus => by
    obtain ⟨-, hl, hr⟩ := all_logical.1 h
    refine restores_parens (l.tokens ++ .keyword op.keyword :: r.tokens)
      (by simpa [tokens] using hus) fun vs hvs => ?_
    obtain ⟨vs, vs', rfl, hleft, hmore⟩ := exists_append_of_map hvs
    obtain ⟨s', vs', rfl, hright⟩ := exists_cons_of_map hmore
    obtain ⟨l', hl', hbare⟩ := restores_tokens hP l hl vs hleft
    obtain ⟨r', hr', hbare'⟩ := restores_tokens hP r hr vs' hright
    obtain ⟨hlevel, htighter⟩ := ofLogical_ne_primary op
    exact ⟨_, _, .logical op (hl'.of_applied hlevel) s' (hr'.of_applied htighter),
      by rw [bare_logical, bare_logical, hbare, hbare']⟩
  | .call _ f args kws, h, us, hus => by
    obtain ⟨-, hargs, hkws⟩ := all_call.1 h
    obtain ⟨s, vs, rfl, hmore⟩ := exists_cons_of_map hus
    obtain ⟨s', vs, rfl, hmore'⟩ := exists_cons_of_map hmore
    obtain ⟨vs, s'', rfl, hvs⟩ := exists_concat_of_map hmore'
    obtain ⟨items, hitems, hbare⟩ := exists_items (f := Sum.map bare (Prod.map id bare))
      (List.rel_append (restores_arguments hP args hargs) (restores_keywordTokens hP kws hkws)) hvs
    obtain ⟨args', kws', rfl, hargs', hkws'⟩ := exists_of_map_sum hbare
    have hkeys : kws'.map Prod.fst = kws.map Prod.fst := by
      have hfst := congrArg (List.map Prod.fst) hkws'
      rwa [List.map_map, List.map_map] at hfst
    refine ⟨_, .call (.name f s) s' s'' hitems (hkeys ▸ (hP _ h).1.2.2), ?_⟩
    rw [bare_call, bare_call, hargs', hkws']
  | .index _ e i, h, us, hus => by
    obtain ⟨-, he, hi⟩ := all_index.1 h
    obtain ⟨vs, vs', rfl, hvs, hmore⟩ := exists_append_of_map hus
    obtain ⟨s, vs', rfl, hmore'⟩ := exists_cons_of_map hmore
    obtain ⟨vs', s', rfl, hvs'⟩ := exists_concat_of_map hmore'
    obtain ⟨e', he', hbare⟩ := restores_tokens hP e he vs hvs
    obtain ⟨i', hi', hbare'⟩ := restores_tokens hP i hi vs' hvs'
    exact ⟨_, .index he' s s' hi'.expression, by rw [bare_index, bare_index, hbare, hbare']⟩
  | .attribute _ e a, h, us, hus => by
    obtain ⟨vs, vs', rfl, hvs, hmore⟩ := exists_append_of_map hus
    obtain ⟨s, vs', rfl, hmore'⟩ := exists_cons_of_map hmore
    obtain ⟨s', rfl⟩ := exists_singleton_of_map hmore'
    obtain ⟨e', he', hbare⟩ := restores_tokens hP e (all_attribute.1 h).2 vs hvs
    exact ⟨_, .field he' s s' a, by rw [bare_attribute, bare_attribute, hbare]⟩

theorem restores_allTokens (hP : Suits format P) : (es : List Expr) →
    (∀ e ∈ es, All P e) →
    List.Forall₂ (fun b ts => ∀ us : List Located, us.map Located.token = ts →
      ∃ e', Expression format us e' ∧ e'.bare = b) (es.map bare) (allTokens es)
  | [], _ => .nil
  | e :: es, h => by
    obtain ⟨he, hes⟩ := List.forall_mem_cons.1 h
    exact .cons (fun us hus => (restores_tokens hP e he us hus).expression)
      (restores_allTokens hP es hes)

theorem restores_entryTokens (hP : Suits format P) : (es : List (Expr × Expr)) →
    (∀ e ∈ es, All P e.1 ∧
      All P e.2) →
    List.Forall₂ (fun b ts => ∀ us : List Located, us.map Located.token = ts →
      ∃ e', Entry (Expression format) us e' ∧ Prod.map bare bare e' = b)
      (es.map (Prod.map bare bare)) (entryTokens es)
  | [], _ => .nil
  | (k, v) :: es, h => by
    obtain ⟨⟨hk, hv⟩, hes⟩ := List.forall_mem_cons.1 h
    refine .cons (fun us hus => ?_) (restores_entryTokens hP es hes)
    obtain ⟨vs, vs', rfl, hvs, hmore⟩ := exists_append_of_map hus
    obtain ⟨s, vs', rfl, hvs'⟩ := exists_cons_of_map hmore
    obtain ⟨k', hk', hbare⟩ := (restores_tokens hP k hk vs hvs).expression
    obtain ⟨v', hv', hbare'⟩ := (restores_tokens hP v hv vs' hvs').expression
    exact ⟨(k', v'), .intro hk' s hv', Prod.ext hbare hbare'⟩

theorem restores_arguments (hP : Suits format P) : (es : List Expr) →
    (∀ e ∈ es, All P e) →
    List.Forall₂ (fun b ts => ∀ us : List Located, us.map Located.token = ts →
      ∃ a, Argument (Expression format) us a ∧ Sum.map bare (Prod.map id bare) a = b)
      ((es.map bare).map Sum.inl) (allTokens es)
  | [], _ => .nil
  | e :: es, h => by
    obtain ⟨he, hes⟩ := List.forall_mem_cons.1 h
    refine .cons (fun us hus => ?_) (restores_arguments hP es hes)
    obtain ⟨e', he', hbare⟩ := (restores_tokens hP e he us hus).expression
    exact ⟨.inl e', .positional he', congrArg Sum.inl hbare⟩

theorem restores_keywordTokens (hP : Suits format P) : (es : List (String × Expr)) →
    (∀ e ∈ es, All P e.2) →
    List.Forall₂ (fun b ts => ∀ us : List Located, us.map Located.token = ts →
      ∃ a, Argument (Expression format) us a ∧ Sum.map bare (Prod.map id bare) a = b)
      ((es.map (Prod.map id bare)).map Sum.inr) (keywordTokens es)
  | [], _ => .nil
  | (k, v) :: es, h => by
    obtain ⟨hv, hes⟩ := List.forall_mem_cons.1 h
    refine .cons (fun us hus => ?_) (restores_keywordTokens hP es hes)
    obtain ⟨s, vs, rfl, hmore⟩ := exists_cons_of_map hus
    obtain ⟨s', vs, rfl, hvs⟩ := exists_cons_of_map hmore
    obtain ⟨v', hv', hbare⟩ := (restores_tokens hP v hv vs hvs).expression
    exact ⟨.inr (k, v'), .keyword k s s' hv', congrArg (fun x => Sum.inr (k, x)) hbare⟩

end

end Tokens

end Grammar

end ReactiveScript

import ReactiveScript.Proofs.Grammar.Expression

/-!
# No bound is ever reached

The parsers count down a number where they might go on for ever: the items of a list, the operators
of a chain, the brackets around an expression.  Every round reads a token at least, so that a number
larger than that of the tokens makes no difference.  Nor does it make one how format strings are
read that do not occur.

* `Grammar.Upto` — lists of tokens with all that comes behind a part of them.
* `Grammar.AgreeOn` — two parsers do the same with some tokens.
* `Grammar.expressionAt_congr` — expressions are read in the same way within any bounds.
-/

set_option autoImplicit false

namespace ReactiveScript

namespace Grammar

variable {α : Type}

/-- Lists of tokens with all that comes behind a part of them. -/
def Upto (P : List Located → Prop) : Prop := ∀ ⦃ts us : List Located⦄, us <:+ ts → P ts → P us

/-- What comes behind one token at least. -/
def Behind (P : List Located → Prop) (ts : List Located) : Prop := ∃ t, P (t :: ts)

theorem Upto.behind {P : List Located → Prop} (h : Upto P) : Upto (Behind P) := by
  rintro ts us ⟨more, rfl⟩ ⟨t, ht⟩
  rcases List.eq_nil_or_concat more with rfl | ⟨more, x, rfl⟩
  · exact ⟨t, ht⟩
  · refine ⟨x, h ⟨t :: more, ?_⟩ ht⟩
    rw [List.concat_eq_append, List.append_assoc, List.cons_append, List.singleton_append]

/-- Two parsers do the same with some tokens. -/
def AgreeOn (P : List Located → Prop) (p p' : Parser α) : Prop := ∀ ⦃ts⦄, P ts → p ts = p' ts

section Inner

variable {P : List Located → Prop} {inner inner' : Parser Expr} {format format' : FormatParser}

/-! ## Lists in brackets -/

theorem afterItem_congr (hP : Upto P) {close : Mark} {more more' : Parser α} (nothing : α)
    {ts : List Located} (hts : P ts)
    (h : ∀ ⦃us⦄, P us → us.length < ts.length → more us = more' us) :
    afterItem close more nothing ts = afterItem close more' nothing ts := by
  rw [afterItem.eq_def, afterItem.eq_def]
  split
  · exact h (hP (List.suffix_cons _ _) hts) (Nat.lt_succ_self _)
  · rfl

theorem listItems_congr (hP : Upto P) (hleaves : Leaves inner) (hinner : AgreeOn P inner inner')
    {n n' : Nat} {ts : List Located} (hts : P ts) (hn : ts.length < n) (hn' : ts.length < n') :
    listItems inner n ts = listItems inner' n' ts := by
  induction n generalizing n' ts with
  | zero => exact absurd hn (Nat.not_lt_zero _)
  | succ n ih =>
    cases n' with
    | zero => exact absurd hn' (Nat.not_lt_zero _)
    | succ n' =>
      rw [listItems.eq_def, listItems.eq_def]
      dsimp only
      split
      · rfl
      · refine bind_congr_ok (hinner hts) fun r hr => ?_
        have hsuffix := hleaves _ _ _ hr
        have hrest := hP hsuffix hts
        refine bind_congr_ok (afterItem_congr hP [] hrest fun us hus hlt => ?_) fun _ _ => rfl
        have := hsuffix.length_le
        exact ih hus (by omega) (by omega)

theorem dictEntries_congr (hP : Upto P) (hleaves : Leaves inner) (hinner : AgreeOn P inner inner')
    {n n' : Nat} {ts : List Located} (hts : P ts) (hn : ts.length < n) (hn' : ts.length < n') :
    dictEntries inner n ts = dictEntries inner' n' ts := by
  induction n generalizing n' ts with
  | zero => exact absurd hn (Nat.not_lt_zero _)
  | succ n ih =>
    cases n' with
    | zero => exact absurd hn' (Nat.not_lt_zero _)
    | succ n' =>
      rw [dictEntries.eq_def, dictEntries.eq_def]
      dsimp only
      split
      · rfl
      · refine bind_congr_ok (hinner hts) fun k hk => bind_congr_ok rfl fun ts₁ hcolon => ?_
        have hkey := (suffix_expect hcolon).trans (hleaves _ _ _ hk)
        refine bind_congr_ok (hinner (hP hkey hts)) fun v hv => ?_
        have hvalue := (hleaves _ _ _ hv).trans hkey
        refine bind_congr_ok (afterItem_congr hP [] (hP hvalue hts) fun us hus hlt => ?_)
          fun _ _ => rfl
        have := hvalue.length_le
        exact ih hus (by omega) (by omega)

theorem arguments_congr (hP : Upto P) (hleaves : Leaves inner) (hinner : AgreeOn P inner inner')
    {n n' : Nat} (seen : List String) {ts : List Located} (hts : P ts) (hn : ts.length < n)
    (hn' : ts.length < n') : arguments inner n seen ts = arguments inner' n' seen ts := by
  induction n generalizing n' ts seen with
  | zero => exact absurd hn (Nat.not_lt_zero _)
  | succ n ih =>
    cases n' with
    | zero => exact absurd hn' (Nat.not_lt_zero _)
    | succ n' =>
      rw [arguments.eq_def, arguments.eq_def]
      dsimp only
      split
      · rfl
      · split
        · rfl
        · have hvalue := hP ((List.suffix_cons _ _).trans (List.suffix_cons _ _)) hts
          refine bind_congr_ok (hinner hvalue) fun r hr => ?_
          have hsuffix := hleaves _ _ _ hr
          refine bind_congr_ok (afterItem_congr hP _ (hP hsuffix hvalue) fun us hus hlt => ?_)
            fun _ _ => rfl
          have := hsuffix.length_le
          simp only [List.length_cons] at hn hn'
          exact ih _ hus (by omega) (by omega)
      · split
        · rfl
        · refine bind_congr_ok (hinner hts) fun r hr => ?_
          have hsuffix := hleaves _ _ _ hr
          refine bind_congr_ok (afterItem_congr hP _ (hP hsuffix hts) fun us hus hlt => ?_)
            fun _ _ => rfl
          have := hsuffix.length_le
          exact ih _ hus (by omega) (by omega)

/-! ## Phrases -/

/-- Format strings are read in the same way where they occur. -/
def FormatsAgree (P : List Located → Prop) (format format' : FormatParser) : Prop :=
  ∀ ⦃raw s ts⦄, P (⟨.format raw, s⟩ :: ts) → format raw s = format' raw s

theorem primary_congr (hP : Upto P) (hleaves : Leaves inner)
    (hinner : AgreeOn (Behind P) inner inner') (hformat : FormatsAgree P format format') :
    AgreeOn P (primary inner format) (primary inner' format') := by
  intro ts hts
  rw [primary.eq_def, primary.eq_def]
  split
  case h_3 => exact bind_congr_ok (hformat hts) fun _ _ => rfl
  case h_8 => exact bind_congr_ok (hinner ⟨_, hts⟩) fun _ _ => rfl
  case h_9 =>
    exact bind_congr_ok (listItems_congr hP.behind hleaves hinner ⟨_, hts⟩ (Nat.lt_succ_self _)
      (Nat.lt_succ_self _)) fun _ _ => rfl
  case h_10 =>
    exact bind_congr_ok (dictEntries_congr hP.behind hleaves hinner ⟨_, hts⟩ (Nat.lt_succ_self _)
      (Nat.lt_succ_self _)) fun _ _ => rfl
  all_goals rfl

theorem trailers_congr (hP : Upto P) (hleaves : Leaves inner)
    (hinner : AgreeOn (Behind P) inner inner') {n n' : Nat} (e : Expr) {ts : List Located}
    (hts : P ts) (hn : ts.length ≤ n) (hn' : ts.length ≤ n') :
    trailers inner n e ts = trailers inner' n' e ts := by
  induction n generalizing n' e ts with
  | zero =>
    obtain rfl := List.eq_nil_of_length_eq_zero (Nat.le_zero.1 hn)
    cases n' <;> rfl
  | succ n ih =>
    cases n' with
    | zero =>
      obtain rfl := List.eq_nil_of_length_eq_zero (Nat.le_zero.1 hn')
      rfl
    | succ n' =>
      rw [trailers.eq_def, trailers.eq_def]
      dsimp only
      split
      · rename_i s ts
        have hbehind := List.suffix_cons (⟨.mark .openParen, s⟩ : Located) ts
        split
        · refine bind_congr_ok (arguments_congr hP.behind hleaves hinner [] ⟨_, hts⟩
            (Nat.lt_succ_self _) (Nat.lt_succ_self _)) fun r hr => ?_
          have hsuffix := leaves_arguments hleaves _ _ _ _ _ hr
          have := hsuffix.length_le
          rw [List.length_cons] at hn hn'
          exact ih _ (hP (hsuffix.trans hbehind) hts) (by omega) (by omega)
        · rfl
      · rename_i s ts
        have hbehind := List.suffix_cons (⟨.mark .openBracket, s⟩ : Located) ts
        refine bind_congr_ok (hinner ⟨_, hts⟩) fun r hr => bind_congr_ok rfl fun ts₁ hclose => ?_
        have hsuffix := (suffix_expect hclose).trans (hleaves _ _ _ hr)
        have := hsuffix.length_le
        rw [List.length_cons] at hn hn'
        exact ih _ (hP (hsuffix.trans hbehind) hts) (by omega) (by omega)
      · rename_i s ts
        have hbehind := List.suffix_cons (⟨.mark .dot, s⟩ : Located) ts
        refine bind_congr_ok rfl fun r hr => ?_
        have hsuffix := leaves_expectName _ _ _ hr
        have := hsuffix.length_le
        rw [List.length_cons] at hn hn'
        exact ih _ (hP (hsuffix.trans hbehind) hts) (by omega) (by omega)
      · rfl

theorem applied_congr (hP : Upto P) (hleaves : Leaves inner)
    (hinner : AgreeOn (Behind P) inner inner') (hformat : FormatsAgree P format format') :
    AgreeOn P (applied inner format) (applied inner' format') := by
  intro ts hts
  refine bind_congr_ok (primary_congr hP hleaves hinner hformat hts) fun r hr => ?_
  exact trailers_congr hP hleaves hinner r.1 (hP ((begins_primary hleaves).leaves _ _ _ hr) hts)
    (Nat.le_refl _) (Nat.le_refl _)

theorem signed_congr (hP : Upto P) (hleaves : Leaves inner)
    (hinner : AgreeOn (Behind P) inner inner') (hformat : FormatsAgree P format format') :
    AgreeOn P (signed inner format) (signed inner' format') := by
  intro ts hts
  fun_induction signed inner format ts with
  | case1 s ts ih =>
    rw [signed]
    exact bind_congr_ok (ih (hP (List.suffix_cons _ _) hts)) fun _ _ => rfl
  | case2 ts hne =>
    rw [signed]
    · exact applied_congr hP hleaves hinner hformat hts
    · exact hne

theorem chainFrom_congr (hP : Upto P) {join? : Joining} (hend : join? .finish = none)
    {operand operand' : Parser Expr} (hleaves : Leaves operand)
    (hoperand : AgreeOn P operand operand') {n n' : Nat} (e : Expr) {ts : List Located}
    (hts : P ts) (hn : ts.length ≤ n) (hn' : ts.length ≤ n') :
    chainFrom join? operand n e ts = chainFrom join? operand' n' e ts := by
  have hnil : ∀ (operand : Parser Expr) (n : Nat) (e : Expr),
      chainFrom join? operand n e [] = .ok (e, []) := by
    intro operand n e
    cases n with
    | zero => rfl
    | succ n => rw [chainFrom, peek, hend]
  induction n generalizing n' e ts with
  | zero =>
    obtain rfl := List.eq_nil_of_length_eq_zero (Nat.le_zero.1 hn)
    rw [hnil, hnil]
  | succ n ih =>
    cases n' with
    | zero =>
      obtain rfl := List.eq_nil_of_length_eq_zero (Nat.le_zero.1 hn')
      rw [hnil, hnil]
    | succ n' =>
      cases ts with
      | nil => rw [hnil, hnil]
      | cons t ts =>
        rw [chainFrom, chainFrom]
        split
        · rfl
        · have hbehind := List.suffix_cons t ts
          refine bind_congr_ok (hoperand (hP hbehind hts)) fun r hr => ?_
          have hsuffix : r.2 <:+ ts := hleaves _ _ _ hr
          have := hsuffix.length_le
          rw [List.length_cons] at hn hn'
          exact ih _ (hP (hsuffix.trans hbehind) hts) (by omega) (by omega)

theorem chain_congr (hP : Upto P) {join? : Joining} (hend : join? .finish = none)
    {operand operand' : Parser Expr} (hleaves : Leaves operand)
    (hoperand : AgreeOn P operand operand') :
    AgreeOn P (chain join? operand) (chain join? operand') := fun _ hts =>
  bind_congr_ok (hoperand hts) fun r hr => chainFrom_congr hP hend hleaves hoperand r.1
    (hP (hleaves _ _ _ hr) hts) (Nat.le_refl _) (Nat.le_refl _)

theorem sum_congr (hP : Upto P) (hleaves : Leaves inner)
    (hinner : AgreeOn (Behind P) inner inner') (hformat : FormatsAgree P format format') :
    AgreeOn P (sum inner format) (sum inner' format') :=
  chain_congr hP rfl (begins_chain (begins_signed hleaves)).leaves
    (chain_congr hP rfl (begins_signed hleaves).leaves (signed_congr hP hleaves hinner hformat))

theorem comparison_congr (hP : Upto P) (hleaves : Leaves inner)
    (hinner : AgreeOn (Behind P) inner inner') (hformat : FormatsAgree P format format') :
    AgreeOn P (comparison inner format) (comparison inner' format') := by
  have hsum : AgreeOn P (sum inner format) (sum inner' format') :=
    sum_congr hP hleaves hinner hformat
  intro ts hts
  refine bind_congr_ok (hsum hts) fun l hl => ?_
  have hsuffix := (begins_sum hleaves).leaves _ _ _ hl
  dsimp only
  split
  · rfl
  · exact bind_congr_ok (hsum (hP ((List.drop_suffix 1 _).trans hsuffix) hts)) fun _ _ => rfl

theorem negation_congr (hP : Upto P) (hleaves : Leaves inner)
    (hinner : AgreeOn (Behind P) inner inner') (hformat : FormatsAgree P format format') :
    AgreeOn P (negation inner format) (negation inner' format') := by
  intro ts hts
  fun_induction negation inner format ts with
  | case1 s ts ih =>
    rw [negation]
    exact bind_congr_ok (ih (hP (List.suffix_cons _ _) hts)) fun _ _ => rfl
  | case2 ts hne =>
    rw [negation]
    · exact comparison_congr hP hleaves hinner hformat hts
    · exact hne

theorem disjunction_congr (hP : Upto P) (hleaves : Leaves inner)
    (hinner : AgreeOn (Behind P) inner inner') (hformat : FormatsAgree P format format') :
    AgreeOn P (disjunction inner format) (disjunction inner' format') :=
  chain_congr hP rfl (begins_chain (begins_negation hleaves)).leaves
    (chain_congr hP rfl (begins_negation hleaves).leaves (negation_congr hP hleaves hinner hformat))

end Inner

/-! ## Expressions -/

/-- **Expressions are read in the same way within any bounds**, if format strings are read in the
same way where they occur. -/
theorem expressionAt_congr {P : List Located → Prop} (hP : Upto P) {format format' : FormatParser}
    (hformat : FormatsAgree P format format') {n n' : Nat} {ts : List Located} (hts : P ts)
    (hn : ts.length < n) (hn' : ts.length < n') :
    expressionAt format n ts = expressionAt format' n' ts := by
  induction n generalizing n' ts P with
  | zero => exact absurd hn (Nat.not_lt_zero _)
  | succ n ih =>
    cases n' with
    | zero => exact absurd hn' (Nat.not_lt_zero _)
    | succ n' =>
      -- what is read inside brackets comes behind a token at least, and so is shorter
      have hupto : Upto fun us => P us ∧ us.length ≤ ts.length := fun _ _ hsuffix hus =>
        ⟨hP hsuffix hus.1, Nat.le_trans hsuffix.length_le hus.2⟩
      refine disjunction_congr hupto (begins_expressionAt format n).leaves ?_
        (fun _ _ _ hus => hformat hus.1) ⟨hts, Nat.le_refl _⟩
      rintro us ⟨t, hus, hle⟩
      rw [List.length_cons] at hle
      exact ih hP hformat (hP (List.suffix_cons t us) hus) (by omega) (by omega)

/-- **No bound is ever reached**: with a larger one an expression is read in the same way. -/
theorem expressionAt_eq_expression (format : FormatParser) {n : Nat} {ts : List Located}
    (hn : ts.length < n) : expressionAt format n ts = expression format ts :=
  expressionAt_congr (P := fun _ => True) (fun _ _ _ _ => trivial) (fun _ _ _ _ => rfl) trivial hn
    (Nat.lt_succ_self _)

/-- **An expression is a disjunction with expressions in its brackets**, to any depth. -/
theorem expression_eq (format : FormatParser) (ts : List Located) :
    expression format ts = disjunction (expression format) format ts := by
  have hupto : Upto fun us => us.length ≤ ts.length := fun _ _ hsuffix hle =>
    Nat.le_trans hsuffix.length_le hle
  refine disjunction_congr hupto (begins_expressionAt format ts.length).leaves ?_
    (fun _ _ _ _ => rfl) (Nat.le_refl ts.length)
  rintro us ⟨t, hle⟩
  exact expressionAt_eq_expression format (Nat.lt_of_succ_le hle)

/-- A whole expression is read in the same way if format strings are, where they occur. -/
theorem wholeExpression_congr {format format' : FormatParser} {ts : List Located}
    (hformat : ∀ raw s, (⟨.format raw, s⟩ : Located) ∈ ts → format raw s = format' raw s) :
    wholeExpression format ts = wholeExpression format' ts := by
  have hsame : expression format ts = expression format' ts :=
    expressionAt_congr (P := fun us => us <:+ ts) (fun _ _ => List.IsSuffix.trans)
      (fun raw s us hus => hformat raw s (hus.subset (List.mem_cons_self ..)))
      (List.suffix_refl ts) (Nat.lt_succ_self _) (Nat.lt_succ_self _)
  exact bind_congr_ok hsame fun _ _ => rfl

end Grammar

end ReactiveScript

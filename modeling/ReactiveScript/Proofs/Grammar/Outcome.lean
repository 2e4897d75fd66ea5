import ReactiveScript.Grammar.Statement
import ReactiveScript.Proofs.Grammar.Origins
import ReactiveScript.Proofs.Token.Spans

/-!
# What comes of reading tokens

A parser that is given the tokens of a text either takes some of them and leaves the others, the
last of which is `finish`, or it fails.  Then a token is to blame that stands there, or a format
string that could not be read.

* `Grammar.Within` — tokens that are left of a text.
* `Grammar.Outcome` — what may come of reading.
* `Grammar.reads_expression`, `Grammar.reads_statementAt` — what comes of reading expressions and
  statements.
* `Script.drawn_of_ofSource`, `Script.blames_of_ofSource` — what comes of reading a script.
-/

set_option autoImplicit false

namespace ReactiveScript

namespace Grammar

variable {α β : Type} {format : FormatParser} {all ts : List Located} {P : α → Prop} {Q : β → Prop}

/-- The tokens that are left of a text. -/
structure Within (all ts : List Located) : Prop where
  /-- They are the last ones. -/
  suffix : ts <:+ all
  /-- The end of the text is among them. -/
  finish : ∃ t ∈ ts, t.token = .finish

/-- What may be wrong with a text: something at one of its tokens, or a format string. -/
def Blames (format : FormatParser) (all : List Located) (err : SyntaxError) : Prop :=
  (err.cause.Plain ∧ ∃ t ∈ all, err.span = t.span) ∨
    ∃ raw s, (⟨.format raw, s⟩ : Located) ∈ all ∧ format raw s = .error err

/-- What may come of reading: a result as `P` says and tokens that are left, or an error. -/
def Outcome (format : FormatParser) (all : List Located) (P : α → Prop) :
    Except SyntaxError (α × List Located) → Prop
  | .ok (a, rest) => P a ∧ Within all rest
  | .error err => Blames format all err

/-- What comes of a parser, wherever in a text it is used. -/
def Reads (format : FormatParser) (all : List Located) (P : α → Prop) (p : Parser α) : Prop :=
  ∀ ⦃ts : List Located⦄, Within all ts → Outcome format all P (p ts)

namespace Within

theorem mem (h : Within all ts) {t : Located} (ht : t ∈ ts) : t ∈ all := h.suffix.subset ht

/-- Behind a token that is not the end there are more. -/
theorem tail {t : Located} (h : Within all (t :: ts)) (ht : t.token ≠ .finish) : Within all ts where
  suffix := (List.suffix_cons t ts).trans h.suffix
  finish := by
    obtain ⟨u, hu, hfinish⟩ := h.finish
    rcases List.mem_cons.1 hu with rfl | hu
    · exact absurd hfinish ht
    · exact ⟨u, hu, hfinish⟩

/-- There is a token in front. -/
theorem exists_cons (h : Within all ts) : ∃ t us, ts = t :: us := by
  obtain ⟨t, ht, -⟩ := h.finish
  exact List.exists_cons_of_ne_nil (List.ne_nil_of_mem ht)

theorem drop (h : Within all ts) (hts : peek ts ≠ .finish) : Within all (ts.drop 1) := by
  obtain ⟨t, us, rfl⟩ := h.exists_cons
  exact h.tail hts

theorem skipLines (h : Within all ts) : Within all (skipLines ts) := by
  fun_induction Grammar.skipLines ts with
  | case1 s ts ih => exact ih (h.tail Token.noConfusion)
  | case2 ts => exact h

theorem joinTexts (h : Within all ts) : Within all (joinTexts ts).2 := by
  fun_induction Grammar.joinTexts ts with
  | case1 s span ts more rest hjoin ih =>
    rw [hjoin] at ih
    exact ih (h.tail Token.noConfusion)
  | case2 ts => exact h

/-- The token in front may be to blame. -/
theorem blames (h : Within all ts) {cause : SyntaxError.Cause} (hcause : cause.Plain) :
    Blames format all ⟨cause, here ts⟩ := by
  obtain ⟨t, us, rfl⟩ := h.exists_cons
  exact Or.inl ⟨hcause, t, h.mem (List.mem_cons_self ..), rfl⟩

theorem unexpected (h : Within all ts) (what : String) :
    Outcome format all P (unexpected what ts) :=
  h.blames fun _ => SyntaxError.Cause.noConfusion

end Within

namespace Outcome

theorem bind {x : Except SyntaxError (α × List Located)}
    {f : α × List Located → Except SyntaxError (β × List Located)} (hx : Outcome format all P x)
    (hf : ∀ a ts, P a → Within all ts → Outcome format all Q (f (a, ts))) :
    Outcome format all Q (x >>= f) := by
  match x, hx with
  | .ok (a, ts), ⟨ha, hts⟩ => exact hf a ts ha hts
  | .error _, hx => exact hx

theorem imp {x : Except SyntaxError (α × List Located)} {P' : α → Prop}
    (hx : Outcome format all P x) (h : ∀ a rest, x = .ok (a, rest) → P a → P' a) :
    Outcome format all P' x := by
  match x, hx with
  | .ok (a, rest), ⟨ha, hrest⟩ => exact ⟨h a rest rfl ha, hrest⟩
  | .error _, hx => exact hx

/-- A token has to stand in front that is not the end. -/
theorem expect (t : Token) (ht : t ≠ .finish) (hts : Within all ts)
    {f : List Located → Except SyntaxError (β × List Located)}
    (hf : ∀ us, Within all us → Outcome format all Q (f us)) :
    Outcome format all Q (Grammar.expect t ts >>= f) := by
  obtain ⟨u, us, rfl⟩ := hts.exists_cons
  rw [Grammar.expect]
  split
  · rename_i hu
    exact hf us (hts.tail fun h => ht (hu.symm.trans h))
  · exact hts.unexpected _

end Outcome

theorem Reads.of_ok {p : Parser α} (hp : Reads format all P p) (hts : Within all ts) {a : α}
    {rest : List Located} (h : p ts = .ok (a, rest)) : P a ∧ Within all rest := by
  have houtcome := hp hts
  rw [h] at houtcome
  exact houtcome

theorem Reads.of_error {p : Parser α} (hp : Reads format all P p) (hts : Within all ts)
    {err : SyntaxError} (h : p ts = .error err) : Blames format all err := by
  have houtcome := hp hts
  rw [h] at houtcome
  exact houtcome

theorem reads_expectName : Reads format all (fun _ => True) expectName := by
  intro ts hts
  rw [expectName.eq_def]
  split
  · exact ⟨trivial, hts.tail Token.noConfusion⟩
  · exact hts.unexpected _

theorem outcome_afterItem {close : Mark} {more : Parser α} {nothing : α} (hts : Within all ts)
    (hmore : Reads format all P more) (hnothing : P nothing) :
    Outcome format all P (afterItem close more nothing ts) := by
  rw [afterItem.eq_def]
  split
  · exact hmore (hts.tail Token.noConfusion)
  · exact .expect (.mark close) Token.noConfusion hts fun us hus => ⟨hnothing, hus⟩

/-! ## Expressions -/

section Inner

variable {inner : Parser Expr}

theorem reads_listItems (h : Reads format all (fun _ => True) inner) (n : Nat) :
    Reads format all (fun _ => True) (listItems inner n) := by
  induction n with
  | zero => exact fun ts hts => hts.unexpected _
  | succ n ih =>
    intro ts hts
    rw [listItems.eq_def]
    dsimp only
    split
    · exact ⟨trivial, hts.tail Token.noConfusion⟩
    · refine .bind (h hts) fun e ts _ hts => ?_
      exact .bind (outcome_afterItem hts ih trivial) fun es ts _ hts => ⟨trivial, hts⟩

theorem reads_dictEntries (h : Reads format all (fun _ => True) inner) (n : Nat) :
    Reads format all (fun _ => True) (dictEntries inner n) := by
  induction n with
  | zero => exact fun ts hts => hts.unexpected _
  | succ n ih =>
    intro ts hts
    rw [dictEntries.eq_def]
    dsimp only
    split
    · exact ⟨trivial, hts.tail Token.noConfusion⟩
    · refine .bind (h hts) fun k ts _ hts => ?_
      refine .expect (.mark .colon) Token.noConfusion hts fun ts hts => ?_
      refine .bind (h hts) fun v ts _ hts => ?_
      exact .bind (outcome_afterItem hts ih trivial) fun es ts _ hts => ⟨trivial, hts⟩

theorem reads_primary (h : Reads format all (fun _ => True) inner) :
    Reads format all (fun _ => True) (primary inner format) := by
  intro ts hts
  rw [primary.eq_def]
  split
  · exact ⟨trivial, hts.tail Token.noConfusion⟩
  · exact ⟨trivial, (hts.tail Token.noConfusion).joinTexts⟩
  · rename_i raw s ts
    cases hps : format raw s with
    | ok ps => exact ⟨trivial, hts.tail Token.noConfusion⟩
    | error err => exact Or.inr ⟨raw, s, hts.mem (List.mem_cons_self ..), hps⟩
  · exact ⟨trivial, hts.tail Token.noConfusion⟩
  · exact ⟨trivial, hts.tail Token.noConfusion⟩
  · exact ⟨trivial, hts.tail Token.noConfusion⟩
  · exact ⟨trivial, hts.tail Token.noConfusion⟩
  · refine .bind (h (hts.tail Token.noConfusion)) fun e ts _ hts => ?_
    exact .expect (.mark .closeParen) Token.noConfusion hts fun ts hts => ⟨trivial, hts⟩
  · exact .bind (reads_listItems h _ (hts.tail Token.noConfusion)) fun es ts _ hts =>
      ⟨trivial, hts⟩
  · exact .bind (reads_dictEntries h _ (hts.tail Token.noConfusion)) fun es ts _ hts =>
      ⟨trivial, hts⟩
  · exact hts.unexpected _

theorem reads_arguments (h : Reads format all (fun _ => True) inner) (n : Nat)
    (seen : List String) : Reads format all (fun _ => True) (arguments inner n seen) := by
  induction n generalizing seen with
  | zero => exact fun ts hts => hts.unexpected _
  | succ n ih =>
    intro ts hts
    rw [arguments.eq_def]
    dsimp only
    split
    · exact ⟨trivial, hts.tail Token.noConfusion⟩
    · split
      · exact hts.blames fun _ => SyntaxError.Cause.noConfusion
      · refine .bind (h ((hts.tail Token.noConfusion).tail Token.noConfusion)) fun e ts _ hts => ?_
        exact .bind (outcome_afterItem hts (ih _) trivial) fun r ts _ hts => ⟨trivial, hts⟩
    · split
      · exact hts.blames fun _ => SyntaxError.Cause.noConfusion
      · refine .bind (h hts) fun e ts _ hts => ?_
        exact .bind (outcome_afterItem hts (ih _) trivial) fun r ts _ hts => ⟨trivial, hts⟩

theorem reads_trailers (h : Reads format all (fun _ => True) inner) (n : Nat) (e : Expr) :
    Reads format all (fun _ => True) (trailers inner n e) := by
  induction n generalizing e with
  | zero => exact fun ts hts => ⟨trivial, hts⟩
  | succ n ih =>
    intro ts hts
    rw [trailers.eq_def]
    dsimp only
    split
    · split
      · exact .bind (reads_arguments h _ _ (hts.tail Token.noConfusion)) fun r ts _ hts => ih _ hts
      · exact hts.blames fun _ => SyntaxError.Cause.noConfusion
    · refine .bind (h (hts.tail Token.noConfusion)) fun i ts _ hts => ?_
      exact .expect (.mark .closeBracket) Token.noConfusion hts fun ts hts => ih _ hts
    · exact .bind (reads_expectName (hts.tail Token.noConfusion)) fun a ts _ hts => ih _ hts
    · exact ⟨trivial, hts⟩

theorem reads_applied (h : Reads format all (fun _ => True) inner) :
    Reads format all (fun _ => True) (applied inner format) := fun _ hts =>
  .bind (reads_primary h hts) fun e _ _ hts => reads_trailers h _ e hts

theorem reads_signed (h : Reads format all (fun _ => True) inner) :
    Reads format all (fun _ => True) (signed inner format) := by
  intro ts hts
  fun_induction signed inner format ts with
  | case1 s ts ih => exact .bind (ih (hts.tail Token.noConfusion)) fun e ts _ hts => ⟨trivial, hts⟩
  | case2 ts _ => exact reads_applied h hts

theorem reads_chain {join? : Joining} (hend : join? .finish = none) {operand : Parser Expr}
    (h : Reads format all (fun _ => True) operand) :
    Reads format all (fun _ => True) (chain join? operand) := by
  have hfrom : ∀ n e, Reads format all (fun _ => True) (chainFrom join? operand n e) := by
    intro n
    induction n with
    | zero => exact fun e ts hts => ⟨trivial, hts⟩
    | succ n ih =>
      intro e ts hts
      rw [chainFrom]
      split
      · exact ⟨trivial, hts⟩
      · rename_i join hjoin
        have hne : peek ts ≠ .finish := fun hfinish => by
          rw [hfinish, hend] at hjoin
          cases hjoin
        exact .bind (h (hts.drop hne)) fun r ts _ hts => ih _ hts
  exact fun ts hts => .bind (h hts) fun l ts _ hts => hfrom _ l hts

theorem reads_sum (h : Reads format all (fun _ => True) inner) :
    Reads format all (fun _ => True) (sum inner format) :=
  reads_chain rfl (reads_chain rfl (reads_signed h))

theorem reads_comparison (h : Reads format all (fun _ => True) inner) :
    Reads format all (fun _ => True) (comparison inner format) := by
  intro ts hts
  refine .bind (reads_sum h hts) fun l ts _ hts => ?_
  dsimp only
  split
  · exact ⟨trivial, hts⟩
  · rename_i join hjoin
    have hne : peek ts ≠ .finish := fun hfinish => by
      rw [hfinish] at hjoin
      cases hjoin
    exact .bind (reads_sum h (hts.drop hne)) fun r ts _ hts => ⟨trivial, hts⟩

theorem reads_negation (h : Reads format all (fun _ => True) inner) :
    Reads format all (fun _ => True) (negation inner format) := by
  intro ts hts
  fun_induction negation inner format ts with
  | case1 s ts ih => exact .bind (ih (hts.tail Token.noConfusion)) fun e ts _ hts => ⟨trivial, hts⟩
  | case2 ts _ => exact reads_comparison h hts

end Inner

theorem reads_expressionAt (format : FormatParser) (all : List Located) (n : Nat) :
    Reads format all (fun _ => True) (expressionAt format n) := by
  induction n with
  | zero => exact fun ts hts => hts.unexpected _
  | succ n ih => exact reads_chain rfl (reads_chain rfl (reads_negation ih))

/-- **What comes of reading an expression**: one whose parts come from the tokens of the text. -/
theorem reads_expression (format : FormatParser) (all : List Located) :
    Reads format all (Drawn format all) (expression format) := by
  intro ts hts
  refine (reads_expressionAt format all _ hts).imp fun e rest hread _ => ?_
  obtain ⟨used, rfl, hdrawn⟩ := drawn_expressionAt format _ hread
  exact hdrawn.mono fun t ht => hts.mem (List.mem_append_left rest ht)

/-! ## Statements -/

/-- The parts of some expressions come from the tokens of a text. -/
def AllDrawn (all : List Located) (es : List Expr) : Prop := ∀ e ∈ es, Drawn formatPieces all e

theorem allDrawn_singleton {e : Expr} (h : Drawn formatPieces all e) : AllDrawn all [e] :=
  List.forall_mem_singleton.2 h

theorem AllDrawn.append {es es' : List Expr} (h : AllDrawn all es) (h' : AllDrawn all es') :
    AllDrawn all (es ++ es') := List.forall_mem_append.2 ⟨h, h'⟩

theorem reads_phrase (all : List Located) :
    Reads formatPieces all (Drawn formatPieces all) phrase := reads_expression formatPieces all

theorem reads_simple (all : List Located) (inside : Bool) :
    Reads formatPieces all (fun s => AllDrawn all s.expressions) (simple inside) := by
  intro ts hts
  rw [simple.eq_def]
  split
  · split
    · exact hts.blames fun _ => SyntaxError.Cause.noConfusion
    · split
      · exact ⟨List.forall_mem_nil _, hts.tail Token.noConfusion⟩
      · exact .bind (reads_phrase all (hts.tail Token.noConfusion)) fun e ts he hts =>
          ⟨allDrawn_singleton he, hts⟩
  · exact ⟨List.forall_mem_nil _, hts.tail Token.noConfusion⟩
  · have hvalue := (hts.tail Token.noConfusion).tail Token.noConfusion
    exact .bind (reads_phrase all hvalue) fun e ts he hts => ⟨allDrawn_singleton he, hts⟩
  · exact .bind (reads_phrase all hts) fun e ts he hts => ⟨allDrawn_singleton he, hts⟩

/-- A statement has to end in front. -/
theorem Outcome.endStatement (hts : Within all ts)
    {f : List Located → Except SyntaxError (β × List Located)}
    (hf : ∀ us, Within all us → Outcome format all Q (f us)) :
    Outcome format all Q (Grammar.endStatement ts >>= f) := by
  rw [Grammar.endStatement]
  split
  · rename_i hline
    exact hf _ (hts.drop fun hfinish => by rw [hfinish] at hline; cases hline)
  · exact hf ts hts
  · exact hf ts hts
  · exact hts.unexpected _

theorem reads_simpleLine (all : List Located) (inside : Bool) :
    Reads formatPieces all (fun s => AllDrawn all s.expressions) (simpleLine inside) := fun _ hts =>
  .bind (reads_simple all inside hts) fun _ _ hs hts => .endStatement hts fun _ hts => ⟨hs, hts⟩

theorem reads_block (inside : Bool) {statement : Parser Stmt}
    (h : Reads formatPieces all (fun s => AllDrawn all s.expressions) statement) :
    Reads formatPieces all (fun ss => AllDrawn all (Stmt.blockExpressions ss))
      (block inside statement) := by
  have hfrom : ∀ n, Reads formatPieces all (fun ss => AllDrawn all (Stmt.blockExpressions ss))
      (blockFrom statement n) := by
    intro n
    induction n with
    | zero => exact fun ts hts => hts.unexpected _
    | succ n ih =>
      intro ts hts
      have hskip := hts.skipLines
      rw [blockFrom]
      dsimp only
      split
      · rename_i hdedent
        refine ⟨List.forall_mem_nil _, hskip.drop fun hfinish => ?_⟩
        rw [hfinish] at hdedent
        cases hdedent
      · exact ⟨List.forall_mem_nil _, hskip⟩
      · refine .bind (h hskip) fun s ts hs hts => ?_
        exact .bind (ih hts) fun ss ts hss hts => ⟨hs.append hss, hts⟩
  intro ts hts
  refine .expect (.mark .colon) Token.noConfusion hts fun ts hts => ?_
  dsimp only
  split
  · have hlines := (hts.tail Token.noConfusion).skipLines
    refine .expect .indent Token.noConfusion hlines fun ts hts => ?_
    refine .bind (hfrom _ hts) fun body ts hbody hts => ?_
    dsimp only
    split
    · exact hts.blames fun _ => SyntaxError.Cause.noConfusion
    · exact ⟨hbody, hts⟩
  · refine .bind (reads_simpleLine all inside hts) fun s ts hs hts => ⟨?_, hts⟩
    show AllDrawn all (s.expressions ++ [])
    rw [List.append_nil]
    exact hs

theorem reads_parameters (n : Nat) (seen : List String) :
    Reads format all (fun _ => True) (parameters n seen) := by
  induction n generalizing seen with
  | zero => exact fun ts hts => hts.unexpected _
  | succ n ih =>
    intro ts hts
    rw [parameters.eq_def]
    dsimp only
    split
    · exact ⟨trivial, hts.tail Token.noConfusion⟩
    · refine .bind (reads_expectName hts) fun p ts _ hts => ?_
      dsimp only
      split
      · exact hts.blames fun _ => SyntaxError.Cause.noConfusion
      · exact .bind (outcome_afterItem hts (ih _) trivial) fun ps ts _ hts => ⟨trivial, hts⟩

section Block

variable {body : Parser (List Stmt)}

theorem reads_definition
    (h : Reads formatPieces all (fun ss => AllDrawn all (Stmt.blockExpressions ss)) body)
    (s : Span) :
    Reads formatPieces all (fun s => AllDrawn all s.expressions) (definition s body) := by
  intro ts hts
  refine .bind (reads_expectName hts) fun name ts _ hts => ?_
  refine .expect (.mark .openParen) Token.noConfusion hts fun ts hts => ?_
  refine .bind (reads_parameters _ _ hts) fun params ts _ hts => ?_
  exact .bind (h hts) fun ss ts hss hts => ⟨hss, hts⟩

theorem reads_branch
    (h : Reads formatPieces all (fun ss => AllDrawn all (Stmt.blockExpressions ss)) body) :
    Reads formatPieces all (fun b => AllDrawn all (b.1 :: Stmt.blockExpressions b.2))
      (branch body) := fun _ hts =>
  .bind (reads_phrase all hts) fun _ _ htest hts => .bind (h hts) fun _ _ hss hts =>
    ⟨List.forall_mem_cons.2 ⟨htest, hss⟩, hts⟩

theorem reads_branches
    (h : Reads formatPieces all (fun ss => AllDrawn all (Stmt.blockExpressions ss)) body) (n : Nat) :
    Reads formatPieces all (fun r => AllDrawn all (Stmt.branchExpressions r.1) ∧
      AllDrawn all (Stmt.blockExpressions r.2)) (branches body n) := by
  induction n with
  | zero => exact fun ts hts => ⟨⟨List.forall_mem_nil _, List.forall_mem_nil _⟩, hts⟩
  | succ n ih =>
    intro ts hts
    have hskip := hts.skipLines
    rw [branches]
    split
    · rename_i hfront
      rw [hfront] at hskip
      refine .bind (reads_branch h (hskip.tail Token.noConfusion)) fun b ts hb hts => ?_
      exact .bind (ih hts) fun r ts hr hts => ⟨⟨hb.append hr.1, hr.2⟩, hts⟩
    · rename_i hfront
      rw [hfront] at hskip
      exact .bind (h (hskip.tail Token.noConfusion)) fun ss ts hss hts =>
        ⟨⟨List.forall_mem_nil _, hss⟩, hts⟩
    · exact ⟨⟨List.forall_mem_nil _, List.forall_mem_nil _⟩, hskip⟩

theorem reads_choice
    (h : Reads formatPieces all (fun ss => AllDrawn all (Stmt.blockExpressions ss)) body)
    (s : Span) :
    Reads formatPieces all (fun s => AllDrawn all s.expressions) (choice s body) := by
  intro ts hts
  refine .bind (reads_branch h hts) fun b ts hb hts => ?_
  exact .bind (reads_branches h _ hts) fun r ts hr hts => ⟨(hb.append hr.1).append hr.2, hts⟩

theorem reads_repetition
    (h : Reads formatPieces all (fun ss => AllDrawn all (Stmt.blockExpressions ss)) body)
    (s : Span) :
    Reads formatPieces all (fun s => AllDrawn all s.expressions) (repetition s body) := by
  intro ts hts
  refine .bind (reads_expectName hts) fun target ts _ hts => ?_
  refine .expect (.keyword .kwIn) Token.noConfusion hts fun ts hts => ?_
  refine .bind (reads_phrase all hts) fun series ts hseries hts => ?_
  exact .bind (h hts) fun ss ts hss hts => ⟨List.forall_mem_cons.2 ⟨hseries, hss⟩, hts⟩

end Block

/-- **What comes of reading a statement.** -/
theorem reads_statementAt (all : List Located) (n : Nat) (inside : Bool) :
    Reads formatPieces all (fun s => AllDrawn all s.expressions) (statementAt n inside) := by
  induction n generalizing inside with
  | zero => exact fun ts hts => hts.unexpected _
  | succ n ih =>
    intro ts hts
    rw [statementAt, statement.eq_def]
    split
    · split
      · exact hts.blames fun _ => SyntaxError.Cause.noConfusion
      · exact reads_definition (reads_block true (ih true)) _ (hts.tail Token.noConfusion)
    · exact reads_choice (reads_block inside (ih inside)) _ (hts.tail Token.noConfusion)
    · exact reads_repetition (reads_block inside (ih inside)) _ (hts.tail Token.noConfusion)
    · exact reads_simpleLine all inside hts

/-! ## Whole texts -/

/-- The tokens of a text are all left in the beginning. -/
theorem within_of_ofSource {cs : List Char} (h : Token.ofSource cs = .ok ts) : Within ts ts where
  suffix := List.suffix_refl ts
  finish := by
    obtain ⟨body, last, rfl, -⟩ := (Token.laidOut_of_ofSource h).finish
    exact ⟨_, List.mem_append_right body (List.mem_singleton_self _), rfl⟩

/-- **The parts of an expression that is a whole text come from the tokens of the text.** -/
theorem drawn_of_wholeExpression (hts : Within ts ts) {e : Expr}
    (h : wholeExpression format ts = .ok e) : Drawn format ts e := by
  obtain ⟨⟨e', rest⟩, he, h⟩ := exists_of_bind h
  obtain ⟨ts', -, h⟩ := exists_of_bind h
  cases h
  exact ((reads_expression format ts).of_ok hts he).1

/-- **If a text is no expression, one of its tokens is to blame or one of its format strings.** -/
theorem blames_of_wholeExpression (hts : Within ts ts) {err : SyntaxError}
    (h : wholeExpression format ts = .error err) : Blames format ts err := by
  rcases error_of_bind h with he | ⟨⟨e, rest⟩, he, h⟩
  · exact (reads_expression format ts).of_error hts he
  · rcases error_of_bind h with hfinish | ⟨ts', -, h⟩
    · have hrest := ((reads_expression format ts).of_ok hts he).2.skipLines
      obtain ⟨t, us, hfront⟩ := hrest.exists_cons
      rw [hfront] at hfinish hrest
      rw [expect] at hfinish
      split at hfinish
      · cases hfinish
      · cases hfinish
        exact hrest.blames fun _ => SyntaxError.Cause.noConfusion
    · cases h

theorem drawn_of_statements {p : Parser Stmt}
    (hp : Reads formatPieces all (fun s => AllDrawn all s.expressions) p) {n : Nat}
    (hts : Within all ts) {ss : List Stmt} (h : statements p n ts = .ok ss) :
    AllDrawn all (Stmt.blockExpressions ss) := by
  induction n generalizing ts ss with
  | zero => cases h
  | succ n ih =>
    rw [statements] at h
    dsimp only at h
    split at h
    · cases h
      exact List.forall_mem_nil _
    · cases h
    · obtain ⟨⟨s, rest⟩, hs, h⟩ := exists_of_bind h
      obtain ⟨ss, hss, h⟩ := exists_of_bind h
      cases h
      obtain ⟨hdrawn, hrest⟩ := hp.of_ok hts.skipLines hs
      exact hdrawn.append (ih hrest hss)

theorem blames_of_statements {p : Parser Stmt}
    (hp : Reads formatPieces all (fun s => AllDrawn all s.expressions) p) {n : Nat}
    (hts : Within all ts) {err : SyntaxError} (h : statements p n ts = .error err) :
    Blames formatPieces all err := by
  induction n generalizing ts with
  | zero =>
    cases h
    exact hts.blames fun _ => SyntaxError.Cause.noConfusion
  | succ n ih =>
    rw [statements] at h
    dsimp only at h
    split at h
    · cases h
    · cases h
      exact hts.skipLines.blames fun _ => SyntaxError.Cause.noConfusion
    · rcases error_of_bind h with hs | ⟨⟨s, rest⟩, hs, h⟩
      · exact hp.of_error hts.skipLines hs
      · rcases error_of_bind h with hss | ⟨ss, -, h⟩
        · exact ih (hp.of_ok hts.skipLines hs).2 hss
        · cases h

end Grammar

namespace Script

variable {source : String}

/-- **The parts of the expressions of a script come from the tokens of its text.** -/
theorem drawn_of_ofSource {script : Script} (h : ofSource source = .ok script) :
    ∃ ts, Token.ofSource source.toList = .ok ts ∧
      ∀ e ∈ script.expressions, Grammar.Drawn Grammar.formatPieces ts e := by
  obtain ⟨ts, hts, h⟩ := exists_of_bind h
  obtain ⟨body, hbody, h⟩ := exists_of_bind h
  cases h
  exact ⟨ts, hts, Grammar.drawn_of_statements (Grammar.reads_statementAt ts _ false)
    (Grammar.within_of_ofSource hts) hbody⟩

/-- **If a text is no script, one of its tokens is to blame or one of its format strings**, unless it
has no tokens at all. -/
theorem blames_of_ofSource {err : SyntaxError} (h : ofSource source = .error err) :
    Token.ofSource source.toList = .error err ∨
      ∃ ts, Token.ofSource source.toList = .ok ts ∧ Grammar.Blames Grammar.formatPieces ts err := by
  rcases error_of_bind h with hts | ⟨ts, hts, h⟩
  · exact Or.inl hts
  · rcases error_of_bind h with hbody | ⟨body, -, h⟩
    · exact Or.inr ⟨ts, hts, Grammar.blames_of_statements (Grammar.reads_statementAt ts _ false)
        (Grammar.within_of_ofSource hts) hbody⟩
    · cases h

end Script

end ReactiveScript

import ReactiveScript.Proofs.Grammar.PrintedFormat
import ReactiveScript.Proofs.Grammar.PrintedLines

/-!
# Printing and reading

A printed script is read as the script again, up to its spans, if its literals and format strings
can be scanned again.

* `Stmt.bare`, `Script.bare` — statements and scripts without their spans.
* `Script.Printable` — the scripts that can be printed and read.
* `Grammar.reads_tokens` — the tokens of a printed statement are read as the statement again.
* `Script.ofSource_print` — a script that is read, printed and read again is the same.
-/

set_option autoImplicit false

namespace ReactiveScript

/-! ## Scripts without their spans -/

namespace Stmt

mutual

/-- A statement without its spans. -/
def bare : Stmt → Stmt
  | .assign _ target e => .assign .none target e.bare
  | .expr _ e => .expr .none e.bare
  | .define _ name params _ body => .define .none name params .none (bareBlock body)
  | .result _ value => .result .none (value.map Expr.bare)
  | .choose _ branches otherwise => .choose .none (bareBranches branches) (bareBlock otherwise)
  | .loop _ target e body => .loop .none target e.bare (bareBlock body)
  | .pass _ => .pass .none

/-- The statements of a block without their spans. -/
def bareBlock : List Stmt → List Stmt
  | [] => []
  | s :: rest => bare s :: bareBlock rest

/-- The branches of a choice without their spans. -/
def bareBranches : List (Expr × List Stmt) → List (Expr × List Stmt)
  | [] => []
  | (test, body) :: rest => (test.bare, bareBlock body) :: bareBranches rest

end

theorem bareBlock_ne_nil {ss : List Stmt} (h : ss ≠ []) : bareBlock ss ≠ [] := by
  cases ss with
  | nil => exact absurd rfl h
  | cons s ss => exact List.cons_ne_nil _ _

end Stmt

/-- A script without its spans. -/
def Script.bare (script : Script) : Script := ⟨Stmt.bareBlock script.body⟩

namespace Grammar

variable {inside : Bool} {ts us rest : List Located} {e : Expr}

/-! ## Expressions in statements -/

/-- **A printed expression in a statement is read again.** -/
theorem exists_phrase (h : e.Printable) (hus : us.map Located.token = e.tokens)
    {rest : List Located} (hrest : EndsAll (peek rest)) :
    ∃ e', phrase (us ++ rest) = .ok (e', rest) ∧ e'.bare = e.bare ∧
      Expression formatPieces us e' := by
  obtain ⟨e', he', hbare⟩ := exists_expression h hus
  refine ⟨e', complete_expressionAt formatPieces _ ?_ he' hrest, hbare, he'⟩
  rw [List.length_append]
  omega

/-- A printed expression starts like one. -/
theorem exists_cons_tokens (h : e.Printable) :
    ∃ t ts, e.tokens = t :: ts ∧ Level.Starts .disjunction t := by
  obtain ⟨us, hus⟩ : ∃ us : List Located, us.map Located.token = e.tokens :=
    ⟨e.tokens.map fun t => ⟨t, .none⟩, List.map_map.trans (List.map_id _)⟩
  obtain ⟨e', he', -⟩ := exists_expression h hus
  obtain ⟨t, more, rfl, ht⟩ := he'.exists_cons
  exact ⟨t.token, more.map Located.token, hus.symm, ht⟩

theorem ne_of_starts {t t' : Token} (h : Level.Starts .disjunction t)
    (h' : ¬Level.Starts .disjunction t') : t ≠ t' := by
  rintro rfl
  exact h' h

theorem cons_ne_of_starts {t : Located} (h : Level.Starts .disjunction t.token) {t' : Token}
    (h' : ¬Level.Starts .disjunction t') (s : Span) : t :: ts ≠ ⟨t', s⟩ :: us :=
  fun heq => ne_of_starts h h' (congrArg Located.token (List.cons.inj heq).1)

/-! ## Statements on a line -/

theorem simpleLine_of_simple {s : Span} {stmt : Stmt}
    (h : simple inside ts = .ok (stmt, ⟨.newline, s⟩ :: rest)) :
    simpleLine inside ts = .ok (stmt, rest) :=
  bind_eq_ok h rfl

/-- A statement that starts like an expression is on one line. -/
theorem statement_of_starts {t : Located} (ht : Level.Starts .disjunction t.token)
    (nested : Bool → Parser Stmt) :
    statement inside nested (t :: ts) = simpleLine inside (t :: ts) := by
  rw [statement.eq_def]
  split
  · rename_i heq
    exact absurd heq (cons_ne_of_starts ht (by simp [Level.Starts, startsPrimary]) _)
  · rename_i heq
    exact absurd heq (cons_ne_of_starts ht (by simp [Level.Starts, startsPrimary]) _)
  · rename_i heq
    exact absurd heq (cons_ne_of_starts ht (by simp [Level.Starts, startsPrimary]) _)
  · rfl

/-- A statement that is an expression. -/
theorem simple_of_expression {s : Span} (he : Expression formatPieces us e)
    (h : phrase (us ++ ⟨.newline, s⟩ :: rest) = .ok (e, ⟨.newline, s⟩ :: rest)) :
    ∃ s', simple inside (us ++ ⟨.newline, s⟩ :: rest) =
      .ok (.expr s' e, ⟨.newline, s⟩ :: rest) := by
  obtain ⟨t, more, rfl, ht⟩ := he.exists_cons
  rw [simple.eq_def]
  split
  · rename_i heq
    exact absurd heq (cons_ne_of_starts ht (by simp [Level.Starts, startsPrimary]) _)
  · rename_i heq
    exact absurd heq (cons_ne_of_starts ht (by simp [Level.Starts, startsPrimary]) _)
  · -- an expression does not begin with a name and an equals sign
    rename_i heq
    exact absurd (nameAssign_append (List.cons_ne_nil _ _) Token.noConfusion ⟨_, _, _, _, heq⟩)
      he.not_nameAssign
  · exact ⟨_, bind_eq_ok h rfl⟩

/-! ## Parameters -/

/-- **Printed parameters are read again.** -/
theorem parameters_of_words {ps seen : List String} {n : Nat} (hn : us.length < n)
    (hus : us.map Located.token = Expr.separated (ps.map fun p => [.name p])) (hnodup : ps.Nodup)
    (hseen : ∀ p ∈ ps, p ∉ seen) (s : Span) (rest : List Located) :
    parameters n seen (us ++ ⟨.mark .closeParen, s⟩ :: rest) = .ok (ps, rest) := by
  induction ps generalizing us n seen with
  | nil =>
    rw [List.map_eq_nil_iff.1 hus]
    cases n with
    | zero => cases hn
    | succ n => rfl
  | cons p ps ih =>
    obtain ⟨n, rfl⟩ : ∃ m, n = m + 1 := ⟨n - 1, by omega⟩
    obtain ⟨hp, hps⟩ := List.nodup_cons.1 hnodup
    obtain ⟨hnew, hseen⟩ := List.forall_mem_cons.1 hseen
    cases ps with
    | nil =>
      obtain ⟨s', rfl⟩ := exists_singleton_of_map hus
      refine bind_eq_ok (a := (p, _)) rfl ?_
      dsimp only
      rw [if_neg hnew]
      exact bind_eq_ok (afterItem_close (by decide) _ _ s rest) rfl
    | cons q ps =>
      rw [List.map_cons, List.map_cons, Expr.separated, List.intercalate_cons_cons] at hus
      obtain ⟨s', vs, rfl, hmore⟩ := exists_cons_of_map hus
      obtain ⟨s'', vs, rfl, hvs⟩ := exists_cons_of_map hmore
      have hrest : parameters n (p :: seen) (vs ++ ⟨.mark .closeParen, s⟩ :: rest) =
          .ok (q :: ps, rest) := by
        refine ih (by simp at hn; omega) hvs hps fun r hr hmem => ?_
        rcases List.mem_cons.1 hmem with rfl | hmem
        · exact hp hr
        · exact hseen r hr hmem
      refine bind_eq_ok (a := (p, _)) rfl ?_
      dsimp only
      rw [if_neg hnew]
      exact bind_eq_ok hrest rfl

/-! ## What is read again

The number that bounds the nesting of blocks only has to exceed the number of tokens: a block has
fewer tokens than its statement, and is read with a bound that is less by one. -/

/-- A statement ends in front of some tokens: no further branch of a choice begins there. -/
def Resumes (rest : List Located) : Prop :=
  peek rest ≠ .newline ∧ peek rest ≠ .keyword .kwElif ∧ peek rest ≠ .keyword .kwElse

/-- The tokens of a printed statement are read as the statement again. -/
def ReadsStmt (inside : Bool) (s : Stmt) : Prop :=
  ∀ (n : Nat) (us rest : List Located), us.map Located.token = s.tokens → us.length < n →
    Resumes rest → ∃ s', statementAt n inside (us ++ rest) = .ok (s', rest) ∧ s'.bare = s.bare

/-- The tokens of the statements of a printed block are read as the block again. -/
def ReadsBlock (inside : Bool) (ss : List Stmt) : Prop :=
  ∀ (n m : Nat) (us rest : List Located) (s : Span),
    us.map Located.token = Stmt.blockTokens ss → us.length < n → us.length < m →
    ∃ ss', blockFrom (statementAt n inside) m (us ++ ⟨.dedent, s⟩ :: rest) = .ok (ss', rest) ∧
      Stmt.bareBlock ss' = Stmt.bareBlock ss

/-- The tokens of the last block of a choice. -/
def elseTokens (ss : List Stmt) : List Token :=
  if ss.isEmpty then [] else .keyword .kwElse :: Stmt.suite (Stmt.blockTokens ss)

/-- The tokens of the further branches of a printed choice are read as the branches again. -/
def ReadsBranches (inside : Bool) (bs : List (Expr × List Stmt)) (otherwise : List Stmt) : Prop :=
  ∀ (n m : Nat) (us rest : List Located),
    us.map Located.token = Stmt.branchTokens false bs ++ elseTokens otherwise →
    us.length < n → us.length < m → Resumes rest →
    ∃ bs' otherwise', branches (block inside (statementAt n inside)) m (us ++ rest) =
        .ok ((bs', otherwise'), rest) ∧
      Stmt.bareBranches bs' = Stmt.bareBranches bs ∧
      Stmt.bareBlock otherwise' = Stmt.bareBlock otherwise

theorem skipLines_of_peek (h : peek ts ≠ .newline) : skipLines ts = ts := by
  rw [skipLines.eq_def]
  split
  · exact absurd rfl h
  · rfl

theorem exists_suite_of_map {ts : List Token} (h : us.map Located.token = Stmt.suite ts) :
    ∃ s₁ s₂ s₃ s₄ vs, us = ⟨.mark .colon, s₁⟩ :: ⟨.newline, s₂⟩ :: ⟨.indent, s₃⟩ ::
      (vs ++ [⟨.dedent, s₄⟩]) ∧ vs.map Located.token = ts := by
  obtain ⟨s₁, vs, rfl, hnewline⟩ := exists_cons_of_map h
  obtain ⟨s₂, vs, rfl, hindent⟩ := exists_cons_of_map hnewline
  obtain ⟨s₃, vs, rfl, hbody⟩ := exists_cons_of_map hindent
  obtain ⟨vs, s₄, rfl, hvs⟩ := exists_concat_of_map hbody
  exact ⟨s₁, s₂, s₃, s₄, vs, rfl, hvs⟩

/-- A block behind the first line of a statement. -/
theorem ReadsBlock.suite {ss : List Stmt} (h : ReadsBlock inside ss) (hne : ss ≠ []) {n : Nat}
    (hus : us.map Located.token = Stmt.suite (Stmt.blockTokens ss)) (hn : us.length < n)
    (rest : List Located) :
    ∃ ss', block inside (statementAt n inside) (us ++ rest) = .ok (ss', rest) ∧
      Stmt.bareBlock ss' = Stmt.bareBlock ss := by
  obtain ⟨s₁, s₂, s₃, s₄, vs, rfl, hvs⟩ := exists_suite_of_map hus
  simp only [List.length_cons, List.length_append] at hn
  obtain ⟨ss', hread, hbare⟩ := h n ((vs ++ ⟨.dedent, s₄⟩ :: rest).length + 1) vs rest s₄ hvs
    (by omega) (by rw [List.length_append]; omega)
  have hne' : ss' ≠ [] := by
    rintro rfl
    exact Stmt.bareBlock_ne_nil hne hbare.symm
  refine ⟨ss', ?_, hbare⟩
  rw [List.cons_append, List.cons_append, List.cons_append, List.append_assoc]
  refine bind_eq_ok (expect_cons _ s₁ _) (bind_eq_ok (expect_cons .indent s₃ _)
    (bind_eq_ok hread ?_))
  dsimp only
  rw [if_neg (by simpa using hne')]

theorem endsAll_suite {ts : List Token} (h : us.map Located.token = Stmt.suite ts)
    (rest : List Located) : EndsAll (peek (us ++ rest)) := by
  obtain ⟨s₁, s₂, s₃, s₄, vs, rfl, -⟩ := exists_suite_of_map h
  exact endsAll_colon

/-- A test and its block. -/
theorem ReadsBlock.branch {ss : List Stmt} (h : ReadsBlock inside ss) (hne : ss ≠ [])
    (he : e.Printable) {n : Nat}
    (hus : us.map Located.token = e.tokens ++ Stmt.suite (Stmt.blockTokens ss)) (hn : us.length < n)
    (rest : List Located) : ∃ e' ss', branch (block inside (statementAt n inside)) (us ++ rest) =
        .ok ((e', ss'), rest) ∧ e'.bare = e.bare ∧ Stmt.bareBlock ss' = Stmt.bareBlock ss := by
  obtain ⟨vs, vs', rfl, hvs, hsuite⟩ := exists_append_of_map hus
  rw [List.length_append] at hn
  obtain ⟨e', he', hbare, -⟩ := exists_phrase he hvs (endsAll_suite hsuite rest)
  obtain ⟨ss', hss', hbares⟩ := h.suite hne hsuite (n := n) (by omega) rest
  refine ⟨e', ss', ?_, hbare, hbares⟩
  rw [List.append_assoc]
  exact bind_eq_ok he' (bind_eq_ok hss' rfl)

/-- What a printed statement may start with. -/
def StartsStmt (t : Token) : Prop :=
  t.isLayout = false ∧ t ≠ .keyword .kwElif ∧ t ≠ .keyword .kwElse

theorem startsStmt_of_starts {t : Token} (h : Level.Starts .disjunction t) : StartsStmt t := by
  refine ⟨?_, ne_of_starts h (by simp [Level.Starts, startsPrimary]),
    ne_of_starts h (by simp [Level.Starts, startsPrimary])⟩
  cases t with
  | newline | indent | dedent | finish => simp [Level.Starts, startsPrimary] at h
  | _ => rfl

/-- What a printed statement starts with. -/
theorem exists_cons_stmtTokens {s : Stmt} (hs : s.Shaped inside)
    (he : ∀ e ∈ s.expressions, e.Printable) : ∃ t ts, s.tokens = t :: ts ∧ StartsStmt t := by
  cases s with
  | expr _ e =>
    obtain ⟨t, ts, htokens, ht⟩ := exists_cons_tokens (List.forall_mem_singleton.1 he)
    refine ⟨t, ts ++ [.newline], ?_, startsStmt_of_starts ht⟩
    rw [Stmt.tokens, htokens, List.cons_append]
  | result _ value => cases value <;> exact ⟨_, _, rfl, rfl, by decide, by decide⟩
  | choose _ branches otherwise =>
    cases branches with
    | nil => exact absurd rfl hs.1
    | cons b bs => exact ⟨_, _, rfl, rfl, by decide, by decide⟩
  | assign => exact ⟨_, _, rfl, rfl, Token.noConfusion, Token.noConfusion⟩
  | _ => exact ⟨_, _, rfl, rfl, by decide, by decide⟩

theorem StartsStmt.peek_ne {t : Located} (h : StartsStmt t.token) {t' : Token}
    (ht' : t'.isLayout = true) : peek (t :: ts) ≠ t' := by
  rintro rfl
  exact Bool.false_ne_true (h.1.symm.trans ht')

theorem StartsStmt.resumes {t : Located} (h : StartsStmt t.token) : Resumes (t :: ts) :=
  ⟨h.peek_ne rfl, h.2⟩

/-- Further statements, or a token that ends their block. -/
theorem resumes_block {ss : List Stmt} (hs : Stmt.BlockShaped inside ss)
    (he : ∀ e ∈ Stmt.blockExpressions ss, e.Printable)
    (hus : us.map Located.token = Stmt.blockTokens ss) (hrest : Resumes rest) :
    Resumes (us ++ rest) := by
  cases ss with
  | nil =>
    rw [List.map_eq_nil_iff.1 hus]
    exact hrest
  | cons s ss =>
    obtain ⟨t, ts, htokens, ht⟩ := exists_cons_stmtTokens hs.1 (List.forall_mem_append.1 he).1
    rw [Stmt.blockTokens, htokens] at hus
    obtain ⟨s', vs, rfl, -⟩ := exists_cons_of_map hus
    exact ht.resumes

/-! ## Statements -/

theorem exists_succ {n m : Nat} (h : n < m) : ∃ k, m = k + 1 := ⟨m - 1, by omega⟩

/-- A printed expression in front of the end of a line. -/
theorem exists_phrase_line (h : e.Printable)
    (hus : us.map Located.token = e.tokens ++ [.newline]) (rest : List Located) :
    ∃ e' vs s, us = vs ++ [⟨.newline, s⟩] ∧ Expression formatPieces vs e' ∧ e'.bare = e.bare ∧
      phrase (us ++ rest) = .ok (e', ⟨.newline, s⟩ :: rest) := by
  obtain ⟨vs, s, rfl, hvs⟩ := exists_concat_of_map hus
  have hend : EndsAll (peek (⟨.newline, s⟩ :: rest)) := endsAll_newline
  obtain ⟨e', hread, hbare, he'⟩ := exists_phrase h hvs hend
  refine ⟨e', vs, s, rfl, he', hbare, ?_⟩
  rw [List.append_assoc]
  exact hread

theorem endsStatement_of_starts {t : Token} (h : Level.Starts .disjunction t) :
    endsStatement t = false := by
  cases t with
  | newline | finish | dedent => simp [Level.Starts, startsPrimary] at h
  | _ => rfl

theorem readsStmt_assign (s : Span) (target : String) (he : e.Printable) :
    ReadsStmt inside (.assign s target e) := by
  intro n us rest hus hn _
  obtain ⟨n, rfl⟩ := exists_succ hn
  obtain ⟨s₁, vs, rfl, hassign⟩ := exists_cons_of_map hus
  obtain ⟨s₂, vs, rfl, hvs⟩ := exists_cons_of_map hassign
  obtain ⟨e', -, s₃, -, -, hbare, hread⟩ := exists_phrase_line he hvs rest
  exact ⟨.assign s₁ target e', simpleLine_of_simple (bind_eq_ok hread rfl),
    congrArg (Stmt.assign .none target) hbare⟩

theorem readsStmt_expr (s : Span) (he : e.Printable) : ReadsStmt inside (.expr s e) := by
  intro n us rest hus hn _
  obtain ⟨n, rfl⟩ := exists_succ hn
  obtain ⟨e', vs, s', rfl, he', hbare, hread⟩ := exists_phrase_line he hus rest
  rw [List.append_assoc, List.singleton_append] at hread ⊢
  obtain ⟨s'', hsimple⟩ := simple_of_expression he' hread
  obtain ⟨t, more, rfl, ht⟩ := he'.exists_cons
  refine ⟨.expr s'' e', ?_, congrArg (Stmt.expr .none) hbare⟩
  rw [statementAt, List.cons_append, statement_of_starts ht]
  exact simpleLine_of_simple hsimple

theorem readsStmt_result (s : Span) {value : Option Expr} (he : ∀ e ∈ value, e.Printable) :
    ReadsStmt true (.result s value) := by
  intro n us rest hus hn _
  obtain ⟨n, rfl⟩ := exists_succ hn
  cases value with
  | none =>
    obtain ⟨s₁, vs, rfl, hvs⟩ := exists_cons_of_map hus
    obtain ⟨s₂, rfl⟩ := exists_singleton_of_map hvs
    exact ⟨.result s₁ none, rfl, rfl⟩
  | some e =>
    obtain ⟨s₁, vs, rfl, hvs⟩ := exists_cons_of_map hus
    obtain ⟨e', vs', s₂, rfl, he', hbare, hread⟩ := exists_phrase_line (he e rfl) hvs rest
    obtain ⟨t, more, rfl, ht⟩ := he'.exists_cons
    refine ⟨.result s₁ (some e'), simpleLine_of_simple (s := s₂) ?_,
      congrArg (fun e => Stmt.result .none (some e)) hbare⟩
    rw [List.cons_append, simple, if_neg (by decide), if_neg]
    · exact bind_eq_ok hread rfl
    · exact Bool.not_eq_true _ ▸ endsStatement_of_starts ht

theorem readsStmt_pass (s : Span) : ReadsStmt inside (.pass s) := by
  intro n us rest hus hn _
  obtain ⟨n, rfl⟩ := exists_succ hn
  obtain ⟨s₁, vs, rfl, hvs⟩ := exists_cons_of_map hus
  obtain ⟨s₂, rfl⟩ := exists_singleton_of_map hvs
  exact ⟨.pass s₁, rfl, rfl⟩

theorem ReadsBlock.define {body : List Stmt} (h : ReadsBlock true body) (hne : body ≠ [])
    {f : String} {params : List String} (hnodup : params.Nodup) (s s' : Span) :
    ReadsStmt false (.define s f params s' body) := by
  intro n us rest hus hn _
  obtain ⟨n, rfl⟩ := exists_succ hn
  obtain ⟨s₁, vs, rfl, hname⟩ := exists_cons_of_map hus
  obtain ⟨s₂, vs, rfl, hopen⟩ := exists_cons_of_map hname
  obtain ⟨s₃, vs, rfl, hmore⟩ := exists_cons_of_map hopen
  obtain ⟨vs, vs', rfl, hparams, hclose⟩ := exists_append_of_map hmore
  obtain ⟨s₄, vs', rfl, hsuite⟩ := exists_cons_of_map hclose
  simp only [List.length_cons, List.length_append] at hn
  obtain ⟨body', hbody', hbare⟩ := h.suite hne hsuite (n := n) (by omega) rest
  have hread := parameters_of_words
    (n := (vs ++ ⟨.mark .closeParen, s₄⟩ :: (vs' ++ rest)).length + 1)
    (by rw [List.length_append]; omega) hparams hnodup (fun _ _ => List.not_mem_nil) s₄
    (vs' ++ rest)
  refine ⟨.define s₁ f params s₁ body', ?_, congrArg (Stmt.define .none f params .none) hbare⟩
  rw [List.cons_append, List.cons_append, List.cons_append, List.append_assoc, List.cons_append]
  exact bind_eq_ok (a := (f, _)) rfl (bind_eq_ok (expect_cons _ s₃ _) (bind_eq_ok hread
    (bind_eq_ok hbody' rfl)))

theorem ReadsBlock.loop {body : List Stmt} (h : ReadsBlock inside body) (hne : body ≠ [])
    (s : Span) (target : String) (he : e.Printable) : ReadsStmt inside (.loop s target e body) := by
  intro n us rest hus hn _
  obtain ⟨n, rfl⟩ := exists_succ hn
  obtain ⟨s₁, vs, rfl, hname⟩ := exists_cons_of_map hus
  obtain ⟨s₂, vs, rfl, hin⟩ := exists_cons_of_map hname
  obtain ⟨s₃, vs, rfl, hmore⟩ := exists_cons_of_map hin
  obtain ⟨vs, vs', rfl, hvs, hsuite⟩ := exists_append_of_map hmore
  simp only [List.length_cons, List.length_append] at hn
  obtain ⟨e', hread, hbare, -⟩ := exists_phrase he hvs (endsAll_suite hsuite rest)
  obtain ⟨body', hbody', hbares⟩ := h.suite hne hsuite (n := n) (by omega) rest
  refine ⟨.loop s₁ target e' body', ?_, ?_⟩
  · rw [List.cons_append, List.cons_append, List.cons_append, List.append_assoc]
    exact bind_eq_ok (a := (target, _)) rfl (bind_eq_ok (expect_cons _ s₃ _) (bind_eq_ok hread
      (bind_eq_ok hbody' rfl)))
  · rw [Stmt.bare, Stmt.bare, hbare, hbares]

/-- The first branch of some, and the tokens behind it. -/
theorem branchTokens_cons_append (first : Bool) (e : Expr) (body : List Stmt)
    (bs : List (Expr × List Stmt)) (ts : List Token) :
    Stmt.branchTokens first ((e, body) :: bs) ++ ts =
      .keyword (if first then .kwIf else .kwElif) ::
        (e.tokens ++ Stmt.suite (Stmt.blockTokens body) ++ (Stmt.branchTokens false bs ++ ts)) := by
  simp only [Stmt.branchTokens, List.cons_append, List.append_assoc]

/-- A test and its block in front of further branches. -/
theorem ReadsBlock.branch_append {body otherwise : List Stmt} {bs : List (Expr × List Stmt)}
    (h : ReadsBlock inside body) (hne : body ≠ []) (he : e.Printable)
    (hbs : ReadsBranches inside bs otherwise) {n : Nat}
    (hus : us.map Located.token = e.tokens ++ Stmt.suite (Stmt.blockTokens body) ++
      (Stmt.branchTokens false bs ++ elseTokens otherwise)) (hn : us.length < n)
    (hrest : Resumes rest) : ∃ e' body' vs,
      Grammar.branch (block inside (statementAt n inside)) (us ++ rest) =
        .ok ((e', body'), vs ++ rest) ∧ vs.length ≤ us.length ∧
      ∀ m, vs.length < m → ∃ bs' otherwise',
        Grammar.branches (block inside (statementAt n inside)) m (vs ++ rest) =
          .ok ((bs', otherwise'), rest) ∧
        Stmt.bareBranches ((e', body') :: bs') = Stmt.bareBranches ((e, body) :: bs) ∧
        Stmt.bareBlock otherwise' = Stmt.bareBlock otherwise := by
  obtain ⟨ws, vs, rfl, hws, hvs⟩ := exists_append_of_map hus
  rw [List.length_append] at hn
  obtain ⟨e', body', hbranch, hbare, hbares⟩ :=
    h.branch hne he hws (n := n) (by omega) (vs ++ rest)
  refine ⟨e', body', vs, ?_, by rw [List.length_append]; omega, fun m hm => ?_⟩
  · rw [List.append_assoc]
    exact hbranch
  · obtain ⟨bs', otherwise', hread, hbareBs, hbareOtherwise⟩ :=
      hbs n m vs rest hvs (by omega) hm hrest
    refine ⟨bs', otherwise', hread, ?_, hbareOtherwise⟩
    rw [Stmt.bareBranches, Stmt.bareBranches, hbare, hbares, hbareBs]

/-- Further branches behind one. -/
theorem ReadsBlock.branches {body otherwise : List Stmt} {bs : List (Expr × List Stmt)}
    (h : ReadsBlock inside body) (hne : body ≠ []) (he : e.Printable)
    (hbs : ReadsBranches inside bs otherwise) :
    ReadsBranches inside ((e, body) :: bs) otherwise := by
  intro n m us rest hus hn hm hrest
  obtain ⟨m, rfl⟩ := exists_succ hm
  obtain ⟨s, vs, rfl, hmore⟩ := exists_cons_of_map (hus.trans (branchTokens_cons_append ..))
  rw [List.length_cons] at hn hm
  obtain ⟨e', body', vs', hbranch, hle, hmore⟩ :=
    h.branch_append hne he hbs hmore (n := n) (by omega) hrest
  obtain ⟨bs', otherwise', hread, hbare, hbareOtherwise⟩ := hmore m (by omega)
  exact ⟨(e', body') :: bs', otherwise', bind_eq_ok hbranch (bind_eq_ok hread rfl), hbare,
    hbareOtherwise⟩

/-- Behind the last branch comes the last block, or a token that is not part of the choice. -/
theorem readsBranches_nil {otherwise : List Stmt} (h : ReadsBlock inside otherwise) :
    ReadsBranches inside [] otherwise := by
  intro n m us rest hus hn hm hrest
  obtain ⟨m, rfl⟩ := exists_succ hm
  cases otherwise with
  | nil =>
    obtain rfl : us = [] := List.map_eq_nil_iff.1 hus
    refine ⟨[], [], ?_, rfl, rfl⟩
    -- nothing of the choice is left, and what stands behind it does not look like a branch
    obtain ⟨hnewline, helif, helse⟩ := hrest
    rw [List.nil_append, Grammar.branches, skipLines_of_peek hnewline]
    split
    · exact absurd rfl helif
    · exact absurd rfl helse
    · rfl
  | cons s ss =>
    obtain ⟨s', vs, rfl, hsuite⟩ := exists_cons_of_map hus
    obtain ⟨otherwise', hread, hbare⟩ :=
      h.suite (List.cons_ne_nil s ss) hsuite (n := n) (by rw [List.length_cons] at hn; omega) rest
    exact ⟨[], otherwise', bind_eq_ok hread rfl, rfl, hbare⟩

theorem ReadsBlock.choose {body otherwise : List Stmt} {bs : List (Expr × List Stmt)}
    (h : ReadsBlock inside body) (hne : body ≠ []) (he : e.Printable) (s : Span)
    (hbs : ReadsBranches inside bs otherwise) :
    ReadsStmt inside (.choose s ((e, body) :: bs) otherwise) := by
  intro n us rest hus hn hrest
  obtain ⟨n, rfl⟩ := exists_succ hn
  obtain ⟨s₁, vs, rfl, hmore⟩ := exists_cons_of_map (hus.trans (branchTokens_cons_append ..))
  rw [List.length_cons] at hn
  obtain ⟨e', body', vs', hbranch, -, hmore⟩ :=
    h.branch_append hne he hbs hmore (n := n) (by omega) hrest
  obtain ⟨bs', otherwise', hread, hbare, hbareOtherwise⟩ :=
    hmore ((vs' ++ rest).length + 1) (by rw [List.length_append]; omega)
  refine ⟨.choose s₁ ((e', body') :: bs') otherwise', ?_, ?_⟩
  · exact bind_eq_ok hbranch (bind_eq_ok hread rfl)
  · rw [Stmt.bare, Stmt.bare, hbare, hbareOtherwise]

/-! ## Statements one after another -/

theorem readsBlock_nil : ReadsBlock inside [] := by
  intro n m us rest s hus _ hm
  obtain ⟨m, rfl⟩ := exists_succ hm
  obtain rfl : us = [] := List.map_eq_nil_iff.1 hus
  exact ⟨[], rfl, rfl⟩

/-- A block does not end where a statement starts. -/
theorem blockFrom_of_startsStmt {t : Located} (ht : StartsStmt t.token) (p : Parser Stmt) (n : Nat)
    (ts : List Located) : blockFrom p (n + 1) (t :: ts) = (do
      let (stmt, ts) ← p (t :: ts)
      let (rest, ts) ← blockFrom p n ts
      .ok (stmt :: rest, ts)) := by
  rw [blockFrom, skipLines_of_peek (ht.peek_ne rfl)]
  dsimp only
  split
  · rename_i hend
    exact absurd hend (ht.peek_ne rfl)
  · rename_i hend
    exact absurd hend (ht.peek_ne rfl)
  · rfl

/-- A script does not end where a statement starts. -/
theorem statements_of_startsStmt {t : Located} (ht : StartsStmt t.token) (p : Parser Stmt) (n : Nat)
    (ts : List Located) : statements p (n + 1) (t :: ts) = (do
      let (stmt, ts) ← p (t :: ts)
      let rest ← statements p n ts
      .ok (stmt :: rest)) := by
  rw [statements, skipLines_of_peek (ht.peek_ne rfl)]
  dsimp only
  split
  · rename_i hend
    exact absurd hend (ht.peek_ne rfl)
  · rename_i hend
    exact absurd hend (ht.peek_ne rfl)
  · rfl

/-- The tokens of a statement in front of those of further statements. -/
theorem exists_cons_of_blockTokens {s : Stmt} {ss : List Stmt} (hs : s.Shaped inside)
    (he : ∀ e ∈ s.expressions, e.Printable)
    (hus : us.map Located.token = Stmt.blockTokens (s :: ss)) :
    ∃ t more vs, us = t :: more ++ vs ∧ StartsStmt t.token ∧
      (t :: more).map Located.token = s.tokens ∧ vs.map Located.token = Stmt.blockTokens ss := by
  obtain ⟨ws, vs, rfl, hws, hvs⟩ := exists_append_of_map hus
  obtain ⟨t, ts, htokens, ht⟩ := exists_cons_stmtTokens hs he
  obtain ⟨s', more, rfl, hmore⟩ := exists_cons_of_map (hws.trans htokens)
  exact ⟨⟨t, s'⟩, more, vs, rfl, ht, hws, hvs⟩

theorem ReadsStmt.block {s : Stmt} {ss : List Stmt} (h : ReadsStmt inside s) (hs : s.Shaped inside)
    (he : ∀ e ∈ s.expressions, e.Printable) (hmore : ReadsBlock inside ss)
    (hss : Stmt.BlockShaped inside ss) (hess : ∀ e ∈ Stmt.blockExpressions ss, e.Printable) :
    ReadsBlock inside (s :: ss) := by
  intro n m us rest s' hus hn hm
  obtain ⟨m, rfl⟩ := exists_succ hm
  obtain ⟨t, more, vs, rfl, ht, hstmt, hvs⟩ := exists_cons_of_blockTokens hs he hus
  simp only [List.length_cons, List.length_append] at hn hm
  -- the next statement or the end of the block stands behind, and neither begins a branch
  have hrest : Resumes (vs ++ ⟨.dedent, s'⟩ :: rest) :=
    resumes_block hss hess hvs ⟨Token.noConfusion, Token.noConfusion, Token.noConfusion⟩
  obtain ⟨stmt, hread, hbare⟩ :=
    h n (t :: more) _ hstmt (by rw [List.length_cons]; omega) hrest
  obtain ⟨stmts, hreads, hbares⟩ := hmore n m vs rest s' hvs (by omega) (by omega)
  refine ⟨stmt :: stmts, ?_, ?_⟩
  · rw [List.append_assoc, List.cons_append, blockFrom_of_startsStmt ht]
    exact bind_eq_ok hread (bind_eq_ok hreads rfl)
  · rw [Stmt.bareBlock, Stmt.bareBlock, hbare, hbares]

mutual

/-- **The tokens of a printed statement are read as the statement again.** -/
theorem reads_tokens {inside : Bool} : (s : Stmt) → s.Shaped inside →
    (∀ e ∈ s.expressions, e.Printable) → ReadsStmt inside s
  | .assign s target _, _, he => readsStmt_assign s target (List.forall_mem_singleton.1 he)
  | .expr s _, _, he => readsStmt_expr s (List.forall_mem_singleton.1 he)
  | .define s f params s' body, hs, he => by
    obtain ⟨rfl, -, -, hnodup, hne, hbody⟩ := hs
    exact (reads_blockTokens body hbody he).define hne hnodup s s'
  | .result s none, hs, _ => by
    obtain rfl : inside = true := hs
    exact readsStmt_result s nofun
  | .result s (some e), hs, he => by
    obtain rfl : inside = true := hs
    refine readsStmt_result s fun e' he' => he e' ?_
    exact List.mem_singleton.2 (Option.mem_some_iff.1 he').symm
  | .choose s branches otherwise, hs, he => by
    obtain ⟨hne, hbranches, hotherwise⟩ := hs
    obtain ⟨hebranches, heotherwise⟩ := List.forall_mem_append.1 he
    have hlast := reads_blockTokens otherwise hotherwise heotherwise
    cases branches with
    | nil => exact absurd rfl hne
    | cons b bs =>
      obtain ⟨test, body⟩ := b
      obtain ⟨hnebody, hbody, hbs⟩ := hbranches
      obtain ⟨hetest, hemore⟩ := List.forall_mem_cons.1 hebranches
      obtain ⟨hebody, hebs⟩ := List.forall_mem_append.1 hemore
      exact (reads_blockTokens body hbody hebody).choose hnebody hetest s
        (reads_branchTokens bs hbs hebs hlast)
  | .loop s target e body, hs, he => by
    obtain ⟨-, hne, hbody⟩ := hs
    obtain ⟨he, hebody⟩ := List.forall_mem_cons.1 he
    exact (reads_blockTokens body hbody hebody).loop hne s target he
  | .pass s, _, _ => readsStmt_pass s

/-- The tokens of the statements of a printed block are read as the block again. -/
theorem reads_blockTokens {inside : Bool} : (ss : List Stmt) → Stmt.BlockShaped inside ss →
    (∀ e ∈ Stmt.blockExpressions ss, e.Printable) → ReadsBlock inside ss
  | [], _, _ => readsBlock_nil
  | s :: ss, hs, he => by
    obtain ⟨hes, hess⟩ := List.forall_mem_append.1 he
    exact (reads_tokens s hs.1 hes).block hs.1 hes (reads_blockTokens ss hs.2 hess) hs.2 hess

/-- The tokens of the further branches of a printed choice are read as the branches again. -/
theorem reads_branchTokens {inside : Bool} {otherwise : List Stmt} :
    (bs : List (Expr × List Stmt)) → Stmt.BranchesShaped inside bs →
    (∀ e ∈ Stmt.branchExpressions bs, e.Printable) → ReadsBlock inside otherwise →
    ReadsBranches inside bs otherwise
  | [], _, _, hlast => readsBranches_nil hlast
  | (test, body) :: bs, hbs, he, hlast => by
    obtain ⟨hne, hbody, hbs⟩ := hbs
    obtain ⟨hetest, hemore⟩ := List.forall_mem_cons.1 he
    obtain ⟨hebody, hebs⟩ := List.forall_mem_append.1 hemore
    exact (reads_blockTokens body hbody hebody).branches hne hetest
      (reads_branchTokens bs hbs hebs hlast)

end

/-- **The tokens of a printed script are read as the script again.** -/
theorem reads_scriptTokens {ss : List Stmt} (hs : Stmt.BlockShaped false ss)
    (he : ∀ e ∈ Stmt.blockExpressions ss, e.Printable) {n m : Nat} {s : Span}
    (hus : us.map Located.token = Stmt.blockTokens ss) (hn : us.length < n) (hm : us.length < m) :
    ∃ ss', statements (statementAt n false) m (us ++ [⟨.finish, s⟩]) = .ok ss' ∧
      Stmt.bareBlock ss' = Stmt.bareBlock ss := by
  induction ss generalizing us m with
  | nil =>
    obtain ⟨m, rfl⟩ := exists_succ hm
    obtain rfl : us = [] := List.map_eq_nil_iff.1 hus
    exact ⟨[], rfl, rfl⟩
  | cons stmt ss ih =>
    obtain ⟨m, rfl⟩ := exists_succ hm
    obtain ⟨hstmt, hss⟩ := hs
    obtain ⟨hestmt, hess⟩ := List.forall_mem_append.1 he
    obtain ⟨t, more, vs, rfl, ht, hts, hvs⟩ := exists_cons_of_blockTokens hstmt hestmt hus
    simp only [List.length_cons, List.length_append] at hn hm
    have hrest : Resumes (vs ++ [⟨.finish, s⟩]) :=
      resumes_block hss hess hvs ⟨Token.noConfusion, Token.noConfusion, Token.noConfusion⟩
    obtain ⟨stmt', hread, hbare⟩ := reads_tokens stmt hstmt hestmt n (t :: more) _ hts
      (by rw [List.length_cons]; omega) hrest
    obtain ⟨ss', hreads, hbares⟩ := ih hss hess hvs (m := m) (by omega) (by omega)
    refine ⟨stmt' :: ss', ?_, ?_⟩
    · rw [List.append_assoc, List.cons_append, statements_of_startsStmt ht]
      exact bind_eq_ok hread (bind_eq_ok hreads rfl)
    · rw [Stmt.bareBlock, Stmt.bareBlock, hbare, hbares]

end Grammar

namespace Script

/-- A script is printed as it can be scanned again: its texts are shown, its numbers are not
infinite, and the expressions in its format strings have no quotes and do not begin with a brace. -/
def Printable (script : Script) : Prop := ∀ e ∈ script.expressions, e.All Expr.PrintsBack

/-- **Printing a script and reading it changes only its spans.**  It holds of every script that is
read from a text, if its literals and format strings are printed as they can be scanned again. -/
theorem ofSource_print {source : String} {script : Script}
    (h : Script.ofSource source = .ok script) (hprint : script.Printable) :
    ∃ script', Script.ofSource script.print = .ok script' ∧ script'.bare = script.bare := by
  -- the tree of a text is one that a printed text can have: its words are words, its blocks are not
  -- empty, and its literal text is not cut in two
  obtain ⟨hshape, hwell⟩ := wellFormed_of_ofSource h
  have he : ∀ e ∈ script.expressions, e.Printable := fun e he =>
    (hwell e he).printable (hprint e he)
  obtain ⟨us, hlex, hus⟩ := exists_ofSource_print hshape he
  obtain ⟨us, s, rfl, hbody⟩ := Grammar.exists_concat_of_map hus
  obtain ⟨body, hread, hbare⟩ := Grammar.reads_scriptTokens hshape he hbody
    (n := (us ++ [(⟨.finish, s⟩ : Located)]).length + 1) (s := s)
    (by rw [List.length_append]; omega) (m := (us ++ [(⟨.finish, s⟩ : Located)]).length + 1)
    (by rw [List.length_append]; omega)
  exact ⟨⟨body⟩, bind_eq_ok hlex (bind_eq_ok hread rfl), congrArg Script.mk hbare⟩

/-- A script that is not written as it is printed. -/
def looseText : String :=
  "if not x:\n  y = f'\x7bd.a\x7d of \x7bf(x, k=y)\x7d'\nelif x < y: pass\nelse:\n" ++
    "  for i in [0, 'a\\n']: f(i)\n"

/-- What `looseText` spells. -/
def looseScript : Script :=
  ⟨[.choose ⟨1, 1⟩
    [(.unary ⟨1, 4⟩ .not (.name ⟨1, 8⟩ "x"),
      [.assign ⟨2, 3⟩ "y" (.format ⟨2, 7⟩ [.hole (.attribute ⟨2, 10⟩ (.name ⟨2, 10⟩ "d") "a") none,
        .text " of ",
        .hole (.call ⟨2, 19⟩ "f" [.name ⟨2, 21⟩ "x"] [("k", .name ⟨2, 26⟩ "y")]) none])]),
    (.binary ⟨3, 6⟩ .lt (.name ⟨3, 6⟩ "x") (.name ⟨3, 10⟩ "y"), [.pass ⟨3, 13⟩])]
    [.loop ⟨5, 3⟩ "i" (.list ⟨5, 12⟩ [.literal ⟨5, 13⟩ (.number 0), .literal ⟨5, 16⟩ (.text "a\n")])
      [.expr ⟨5, 24⟩ (.call ⟨5, 24⟩ "f" [.name ⟨5, 26⟩ "i"] [])]]]⟩

theorem ofSource_print_looseScript :
    Script.ofSource looseText = .ok looseScript ∧ looseScript.Printable ∧
      ∃ script', Script.ofSource looseScript.print = .ok script' ∧
        script'.bare = looseScript.bare := by
  have hread : Script.ofSource looseText = .ok looseScript := by cbv
  have hnumber : Number.shape 0 ≠ .infinite false := by decide
  have hshown : Token.isShown 'a' = true ∧ Token.isShown '\n' = true := by decide +kernel
  have hprint : looseScript.Printable := by
    simp [Printable, expressions, looseScript, Stmt.blockExpressions, Stmt.branchExpressions,
      Stmt.expressions, Expr.all_format, Expr.all_literal, Expr.all_name, Expr.all_list,
      Expr.all_unary, Expr.all_binary, Expr.all_attribute, Expr.all_call, Expr.PrintsBack,
      Piece.holes, Expr.opensDict, Expr.Unquoted, hnumber, hshown]
  exact ⟨hread, hprint, ofSource_print hread hprint⟩

/-- The quotes of a text in an interpolation are printed like those of the format string, which
they end. -/
example : ∃ script err, Script.ofSource "x = f\"\x7bd['a']\x7d\"\n" = .ok script ∧
    script.print = "x = f\"\x7bd[\"a\"]\x7d\"\n" ∧
    Script.ofSource "x = f\"\x7bd[\"a\"]\x7d\"\n" = .error err :=
  ⟨_, _, by cbv, by decide +kernel, by cbv⟩

end Script

end ReactiveScript

import ReactiveScript.Grammar.Statement
import ReactiveScript.Proofs.Evaluation.Function
import ReactiveScript.Proofs.Grammar.Expression

/-!
# Where statements stand

A statement stands where its first token stands, and what it leaves stands behind it.  So the
statements of a script stand at different positions.  Functions define no functions.

* `Grammar.Places` — a parser of statements places them at their first token.
* `Script.sorted_spans_of_ofSource` — the statements of a script stand one after another.
* `Script.definesNothing_of_ofSource` — the functions of a script define no functions.
-/

set_option autoImplicit false

namespace ReactiveScript

namespace Grammar

/-- A parser of statements places a statement at a token of the text, which it reads first. -/
def Places (p : Parser Stmt) : Prop := ∀ ts s rest, p ts = .ok (s, rest) →
  ∃ t more, ts = t :: more ∧ t.token.isLayout = false ∧ s.span = t.span ∧ rest <:+ more

theorem Places.leaves {p : Parser Stmt} (h : Places p) : Leaves p := by
  intro ts s rest hp
  obtain ⟨t, more, rfl, -, -, hrest⟩ := h ts s rest hp
  exact hrest.trans (List.suffix_cons t more)

/-! ## Statements on a line -/

theorem begins_phrase : Begins phrase :=
  fun ts => begins_expressionAt formatPieces (ts.length + 1) ts

theorem suffix_endStatement {ts rest : List Located} (h : endStatement ts = .ok rest) :
    rest <:+ ts := by
  rw [endStatement] at h
  split at h
  · cases h
    exact List.drop_suffix 1 ts
  · cases h
    exact List.suffix_refl ts
  · cases h
    exact List.suffix_refl ts
  · cases h

theorem places_simple (inside : Bool) : Places (simple inside) := by
  intro ts s rest hp
  rw [simple.eq_def] at hp
  split at hp
  · split at hp
    · cases hp
    · split at hp
      · cases hp
        exact ⟨_, _, rfl, rfl, rfl, List.suffix_refl _⟩
      · obtain ⟨⟨e, ts₁⟩, he, hp⟩ := exists_of_bind hp
        cases hp
        exact ⟨_, _, rfl, rfl, rfl, begins_phrase.leaves _ _ _ he⟩
  · cases hp
    exact ⟨_, _, rfl, rfl, rfl, List.suffix_refl _⟩
  · obtain ⟨⟨e, ts₁⟩, he, hp⟩ := exists_of_bind hp
    cases hp
    exact ⟨_, _, rfl, rfl, rfl, (begins_phrase.leaves _ _ _ he).trans (List.suffix_cons _ _)⟩
  · obtain ⟨⟨e, ts₁⟩, he, hp⟩ := exists_of_bind hp
    obtain ⟨t, more, rfl, ht, hmore⟩ := begins_phrase _ _ _ he
    cases hp
    exact ⟨t, more, rfl, ht, rfl, hmore⟩

theorem places_simpleLine (inside : Bool) : Places (simpleLine inside) := by
  intro ts s rest hp
  obtain ⟨⟨stmt, ts₁⟩, hstmt, hp⟩ := exists_of_bind hp
  obtain ⟨ts₂, hend, hp⟩ := exists_of_bind hp
  cases hp
  obtain ⟨t, more, rfl, ht, hspan, hmore⟩ := places_simple inside _ _ _ hstmt
  exact ⟨t, more, rfl, ht, hspan, (suffix_endStatement hend).trans hmore⟩

/-! ## Statements with blocks -/

theorem leaves_blockFrom {statement : Parser Stmt} (h : Leaves statement) (n : Nat) :
    Leaves (blockFrom statement n) := by
  induction n with
  | zero => exact fun ts a rest hp => by cases hp
  | succ n ih =>
    intro ts a rest hp
    rw [blockFrom] at hp
    dsimp only at hp
    split at hp
    · cases hp
      exact (List.drop_suffix 1 _).trans (suffix_skipLines ts)
    · cases hp
      exact suffix_skipLines ts
    · obtain ⟨⟨stmt, ts₁⟩, hstmt, hp⟩ := exists_of_bind hp
      obtain ⟨⟨stmts, ts₂⟩, hstmts, hp⟩ := exists_of_bind hp
      cases hp
      exact (ih _ _ _ hstmts).trans ((h _ _ _ hstmt).trans (suffix_skipLines ts))

theorem leaves_block (inside : Bool) {statement : Parser Stmt} (h : Leaves statement) :
    Leaves (block inside statement) := by
  intro ts a rest hp
  obtain ⟨ts₁, hcolon, hp⟩ := exists_of_bind hp
  split at hp
  · obtain ⟨ts₂, hindent, hp⟩ := exists_of_bind hp
    obtain ⟨⟨body, ts₃⟩, hbody, hp⟩ := exists_of_bind hp
    dsimp only at hp
    split at hp
    · cases hp
    · cases hp
      refine (leaves_blockFrom h _ _ _ _ hbody).trans ((suffix_expect hindent).trans ?_)
      exact ((suffix_skipLines _).trans (List.suffix_cons _ _)).trans (suffix_expect hcolon)
  · obtain ⟨⟨stmt, ts₂⟩, hstmt, hp⟩ := exists_of_bind hp
    cases hp
    exact ((places_simpleLine inside).leaves _ _ _ hstmt).trans (suffix_expect hcolon)

theorem leaves_parameters (n : Nat) (seen : List String) : Leaves (parameters n seen) := by
  induction n generalizing seen with
  | zero => exact fun ts a rest hp => by cases hp
  | succ n ih =>
    intro ts a rest hp
    rw [parameters.eq_def] at hp
    dsimp only at hp
    split at hp
    · cases hp
      exact List.suffix_cons _ _
    · obtain ⟨⟨p, ts₁⟩, hname, hp⟩ := exists_of_bind hp
      dsimp only at hp
      split at hp
      · cases hp
      · obtain ⟨⟨ps, ts₂⟩, hmore, hp⟩ := exists_of_bind hp
        cases hp
        exact (leaves_afterItem (ih _) _ _ _ hmore).trans (leaves_expectName _ _ _ hname)

section Block

variable {body : Parser (List Stmt)}

theorem leaves_definition (h : Leaves body) (s : Span) : Leaves (definition s body) := by
  intro ts a rest hp
  obtain ⟨⟨name, ts₁⟩, hname, hp⟩ := exists_of_bind hp
  obtain ⟨ts₂, hopen, hp⟩ := exists_of_bind hp
  obtain ⟨⟨params, ts₃⟩, hparams, hp⟩ := exists_of_bind hp
  obtain ⟨⟨stmts, ts₄⟩, hbody, hp⟩ := exists_of_bind hp
  cases hp
  exact (h _ _ _ hbody).trans ((leaves_parameters _ _ _ _ _ hparams).trans
    ((suffix_expect hopen).trans (leaves_expectName _ _ _ hname)))

theorem leaves_branch (h : Leaves body) : Leaves (branch body) := by
  intro ts a rest hp
  obtain ⟨⟨test, ts₁⟩, htest, hp⟩ := exists_of_bind hp
  obtain ⟨⟨stmts, ts₂⟩, hbody, hp⟩ := exists_of_bind hp
  cases hp
  exact (h _ _ _ hbody).trans (begins_phrase.leaves _ _ _ htest)

theorem leaves_branches (h : Leaves body) (n : Nat) : Leaves (branches body n) := by
  induction n with
  | zero =>
    intro ts a rest hp
    cases hp
    exact List.suffix_refl _
  | succ n ih =>
    intro ts a rest hp
    have hskip := suffix_skipLines ts
    rw [branches] at hp
    split at hp
    · rename_i hfront
      rw [hfront] at hskip
      obtain ⟨⟨b, ts₁⟩, hb, hp⟩ := exists_of_bind hp
      obtain ⟨⟨⟨bs, otherwise⟩, ts₂⟩, hbs, hp⟩ := exists_of_bind hp
      cases hp
      exact (ih _ _ _ hbs).trans ((leaves_branch h _ _ _ hb).trans
        ((List.suffix_cons _ _).trans hskip))
    · rename_i hfront
      rw [hfront] at hskip
      obtain ⟨⟨otherwise, ts₁⟩, hotherwise, hp⟩ := exists_of_bind hp
      cases hp
      exact (h _ _ _ hotherwise).trans ((List.suffix_cons _ _).trans hskip)
    · cases hp
      exact suffix_skipLines ts

theorem leaves_choice (h : Leaves body) (s : Span) : Leaves (choice s body) := by
  intro ts a rest hp
  obtain ⟨⟨b, ts₁⟩, hb, hp⟩ := exists_of_bind hp
  obtain ⟨⟨⟨bs, otherwise⟩, ts₂⟩, hbs, hp⟩ := exists_of_bind hp
  cases hp
  exact (leaves_branches h _ _ _ _ hbs).trans (leaves_branch h _ _ _ hb)

theorem leaves_repetition (h : Leaves body) (s : Span) : Leaves (repetition s body) := by
  intro ts a rest hp
  obtain ⟨⟨target, ts₁⟩, htarget, hp⟩ := exists_of_bind hp
  obtain ⟨ts₂, hin, hp⟩ := exists_of_bind hp
  obtain ⟨⟨series, ts₃⟩, hseries, hp⟩ := exists_of_bind hp
  obtain ⟨⟨stmts, ts₄⟩, hbody, hp⟩ := exists_of_bind hp
  cases hp
  exact (h _ _ _ hbody).trans ((begins_phrase.leaves _ _ _ hseries).trans
    ((suffix_expect hin).trans (leaves_expectName _ _ _ htarget)))

end Block

theorem span_definition {s : Span} {body : Parser (List Stmt)} {ts rest : List Located}
    {stmt : Stmt} (h : definition s body ts = .ok (stmt, rest)) : stmt.span = s := by
  obtain ⟨⟨name, ts₁⟩, -, h⟩ := exists_of_bind h
  obtain ⟨ts₂, -, h⟩ := exists_of_bind h
  obtain ⟨⟨params, ts₃⟩, -, h⟩ := exists_of_bind h
  obtain ⟨⟨stmts, ts₄⟩, -, h⟩ := exists_of_bind h
  cases h
  rfl

theorem span_choice {s : Span} {body : Parser (List Stmt)} {ts rest : List Located}
    {stmt : Stmt} (h : choice s body ts = .ok (stmt, rest)) : stmt.span = s := by
  obtain ⟨⟨b, ts₁⟩, -, h⟩ := exists_of_bind h
  obtain ⟨⟨⟨bs, otherwise⟩, ts₂⟩, -, h⟩ := exists_of_bind h
  cases h
  rfl

theorem span_repetition {s : Span} {body : Parser (List Stmt)} {ts rest : List Located}
    {stmt : Stmt} (h : repetition s body ts = .ok (stmt, rest)) : stmt.span = s := by
  obtain ⟨⟨target, ts₁⟩, -, h⟩ := exists_of_bind h
  obtain ⟨ts₂, -, h⟩ := exists_of_bind h
  obtain ⟨⟨series, ts₃⟩, -, h⟩ := exists_of_bind h
  obtain ⟨⟨stmts, ts₄⟩, -, h⟩ := exists_of_bind h
  cases h
  rfl

theorem places_statementAt (n : Nat) (inside : Bool) : Places (statementAt n inside) := by
  induction n generalizing inside with
  | zero => exact fun ts a rest hp => by cases hp
  | succ n ih =>
    have hblock : ∀ inside', Leaves (block inside' (statementAt n inside')) :=
      fun inside' => leaves_block inside' (ih inside').leaves
    intro ts s rest hp
    rw [statementAt, statement.eq_def] at hp
    split at hp
    · split at hp
      · cases hp
      · exact ⟨_, _, rfl, rfl, span_definition hp, leaves_definition (hblock true) _ _ _ _ hp⟩
    · exact ⟨_, _, rfl, rfl, span_choice hp, leaves_choice (hblock inside) _ _ _ _ hp⟩
    · exact ⟨_, _, rfl, rfl, span_repetition hp, leaves_repetition (hblock inside) _ _ _ _ hp⟩
    · exact places_simpleLine inside _ _ _ hp

/-- The statements of a script stand at tokens of its text, in their order. -/
theorem spans_sublist_positions {p : Parser Stmt} (hp : Places p) {n : Nat} {ts : List Located}
    {ss : List Stmt} (h : statements p n ts = .ok ss) :
    (ss.map Stmt.span).Sublist (Token.positions ts) := by
  induction n generalizing ts ss with
  | zero => cases h
  | succ n ih =>
    have hskip := Token.positions_sublist (suffix_skipLines ts)
    rw [statements] at h
    dsimp only at h
    split at h
    · cases h
      exact List.nil_sublist _
    · cases h
    · obtain ⟨⟨stmt, ts₁⟩, hstmt, h⟩ := exists_of_bind h
      obtain ⟨rest, hrest, h⟩ := exists_of_bind h
      cases h
      obtain ⟨t, more, hfront, ht, hspan, hmore⟩ := hp _ _ _ hstmt
      have hpositions : Token.positions (t :: more) = t.span :: Token.positions more := by
        rw [Token.positions, List.filter_cons, ht]
        rfl
      rw [hfront, hpositions] at hskip
      rw [List.map_cons, hspan]
      exact (((ih hrest).trans (Token.positions_sublist hmore)).cons_cons t.span).trans hskip

/-! ## No functions inside functions -/

/-- What a parser reads defines no functions. -/
def Plain {α : Type} (definesNothing : α → Bool) (p : Parser α) : Prop :=
  ∀ ts a rest, p ts = .ok (a, rest) → definesNothing a = true

theorem plain_simple (inside : Bool) : Plain Stmt.definesNothing (simple inside) := by
  intro ts s rest hp
  rw [simple.eq_def] at hp
  split at hp
  · split at hp
    · cases hp
    · split at hp
      · cases hp
        rfl
      · obtain ⟨⟨e, ts₁⟩, -, hp⟩ := exists_of_bind hp
        cases hp
        rfl
  · cases hp
    rfl
  · obtain ⟨⟨e, ts₁⟩, -, hp⟩ := exists_of_bind hp
    cases hp
    rfl
  · obtain ⟨⟨e, ts₁⟩, -, hp⟩ := exists_of_bind hp
    cases hp
    rfl

theorem plain_simpleLine (inside : Bool) : Plain Stmt.definesNothing (simpleLine inside) := by
  intro ts s rest hp
  obtain ⟨⟨stmt, ts₁⟩, hstmt, hp⟩ := exists_of_bind hp
  obtain ⟨ts₂, -, hp⟩ := exists_of_bind hp
  cases hp
  exact plain_simple inside _ _ _ hstmt

theorem plain_block (inside : Bool) {statement : Parser Stmt}
    (h : Plain Stmt.definesNothing statement) :
    Plain Stmt.blockDefinesNothing (block inside statement) := by
  have hfrom : ∀ n, Plain Stmt.blockDefinesNothing (blockFrom statement n) := by
    intro n
    induction n with
    | zero => exact fun ts a rest hp => by cases hp
    | succ n ih =>
      intro ts a rest hp
      rw [blockFrom] at hp
      dsimp only at hp
      split at hp
      · cases hp
        rfl
      · cases hp
        rfl
      · obtain ⟨⟨stmt, ts₁⟩, hstmt, hp⟩ := exists_of_bind hp
        obtain ⟨⟨stmts, ts₂⟩, hstmts, hp⟩ := exists_of_bind hp
        cases hp
        rw [Stmt.blockDefinesNothing, h _ _ _ hstmt, ih _ _ _ hstmts]
        rfl
  intro ts a rest hp
  obtain ⟨ts₁, -, hp⟩ := exists_of_bind hp
  split at hp
  · obtain ⟨ts₂, -, hp⟩ := exists_of_bind hp
    obtain ⟨⟨body, ts₃⟩, hbody, hp⟩ := exists_of_bind hp
    dsimp only at hp
    split at hp
    · cases hp
    · cases hp
      exact hfrom _ _ _ _ hbody
  · obtain ⟨⟨stmt, ts₂⟩, hstmt, hp⟩ := exists_of_bind hp
    cases hp
    rw [Stmt.blockDefinesNothing, plain_simpleLine inside _ _ _ hstmt]
    rfl

section Block

variable {body : Parser (List Stmt)}

theorem plain_branches (h : Plain Stmt.blockDefinesNothing body) (n : Nat) :
    Plain (fun x => Stmt.branchesDefineNothing x.1 && Stmt.blockDefinesNothing x.2)
      (branches body n) := by
  induction n with
  | zero =>
    intro ts a rest hp
    cases hp
    rfl
  | succ n ih =>
    intro ts a rest hp
    rw [branches] at hp
    split at hp
    · obtain ⟨⟨⟨test, stmts⟩, ts₁⟩, hb, hp⟩ := exists_of_bind hp
      obtain ⟨⟨⟨bs, otherwise⟩, ts₂⟩, hbs, hp⟩ := exists_of_bind hp
      cases hp
      obtain ⟨⟨test', ts₃⟩, -, hb⟩ := exists_of_bind hb
      obtain ⟨⟨stmts', ts₄⟩, hstmts, hb⟩ := exists_of_bind hb
      cases hb
      have hrest := ih _ _ _ hbs
      simp only [Stmt.branchesDefineNothing, h _ _ _ hstmts, Bool.true_and]
      exact hrest
    · obtain ⟨⟨otherwise, ts₁⟩, hotherwise, hp⟩ := exists_of_bind hp
      cases hp
      exact h _ _ _ hotherwise
    · cases hp
      rfl

theorem plain_choice (h : Plain Stmt.blockDefinesNothing body) (s : Span) :
    Plain Stmt.definesNothing (choice s body) := by
  intro ts a rest hp
  obtain ⟨⟨⟨test, stmts⟩, ts₁⟩, hb, hp⟩ := exists_of_bind hp
  obtain ⟨⟨⟨bs, otherwise⟩, ts₂⟩, hbs, hp⟩ := exists_of_bind hp
  cases hp
  obtain ⟨⟨test', ts₃⟩, -, hb⟩ := exists_of_bind hb
  obtain ⟨⟨stmts', ts₄⟩, hstmts, hb⟩ := exists_of_bind hb
  cases hb
  have hrest := plain_branches h _ _ _ _ hbs
  rw [Stmt.definesNothing, Stmt.branchesDefineNothing, h _ _ _ hstmts, Bool.true_and]
  exact hrest

theorem plain_repetition (h : Plain Stmt.blockDefinesNothing body) (s : Span) :
    Plain Stmt.definesNothing (repetition s body) := by
  intro ts a rest hp
  obtain ⟨⟨target, ts₁⟩, -, hp⟩ := exists_of_bind hp
  obtain ⟨ts₂, -, hp⟩ := exists_of_bind hp
  obtain ⟨⟨series, ts₃⟩, -, hp⟩ := exists_of_bind hp
  obtain ⟨⟨stmts, ts₄⟩, hbody, hp⟩ := exists_of_bind hp
  cases hp
  exact h _ _ _ hbody

end Block

/-- Inside a function there are no definitions. -/
theorem plain_statementAt (n : Nat) : Plain Stmt.definesNothing (statementAt n true) := by
  induction n with
  | zero => exact fun ts a rest hp => by cases hp
  | succ n ih =>
    intro ts s rest hp
    rw [statementAt, statement.eq_def] at hp
    split at hp
    · cases hp
    · exact plain_choice (plain_block true ih) _ _ _ _ hp
    · exact plain_repetition (plain_block true ih) _ _ _ _ hp
    · exact plain_simpleLine true _ _ _ hp

theorem definesNothing_of_definition? {n : Nat} {ts rest : List Located} {s : Stmt}
    {d : FunctionDef} (h : statementAt n false ts = .ok (s, rest)) (hd : s.definition? = some d) :
    Stmt.blockDefinesNothing d.body = true := by
  cases n with
  | zero => cases h
  | succ n =>
    have hno : s.definesNothing = true → False := by
      intro hplain
      cases s with
      | define => cases hplain
      | _ => cases hd
    rw [statementAt, statement.eq_def] at h
    split at h
    · rw [if_neg Bool.false_ne_true] at h
      obtain ⟨⟨name, ts₁⟩, -, h⟩ := exists_of_bind h
      obtain ⟨ts₂, -, h⟩ := exists_of_bind h
      obtain ⟨⟨params, ts₃⟩, -, h⟩ := exists_of_bind h
      obtain ⟨⟨stmts, ts₄⟩, hbody, h⟩ := exists_of_bind h
      cases h
      cases hd
      exact plain_block true (plain_statementAt n) _ _ _ hbody
    · obtain ⟨⟨b, ts₁⟩, -, h⟩ := exists_of_bind h
      obtain ⟨⟨⟨bs, otherwise⟩, ts₂⟩, -, h⟩ := exists_of_bind h
      cases h
      cases hd
    · obtain ⟨⟨target, ts₁⟩, -, h⟩ := exists_of_bind h
      obtain ⟨ts₂, -, h⟩ := exists_of_bind h
      obtain ⟨⟨series, ts₃⟩, -, h⟩ := exists_of_bind h
      obtain ⟨⟨stmts, ts₄⟩, -, h⟩ := exists_of_bind h
      cases h
      cases hd
    · exact (hno (plain_simpleLine false _ _ _ h)).elim

theorem exists_of_mem_statements {p : Parser Stmt} {n : Nat} {ts : List Located} {ss : List Stmt}
    (h : statements p n ts = .ok ss) {s : Stmt} (hs : s ∈ ss) :
    ∃ ts rest, p ts = .ok (s, rest) := by
  induction n generalizing ts ss with
  | zero => cases h
  | succ n ih =>
    rw [statements] at h
    dsimp only at h
    split at h
    · cases h
      cases hs
    · cases h
    · obtain ⟨⟨stmt, ts₁⟩, hstmt, h⟩ := exists_of_bind h
      obtain ⟨rest, hrest, h⟩ := exists_of_bind h
      cases h
      rcases List.mem_cons.1 hs with rfl | hs
      · exact ⟨_, _, hstmt⟩
      · exact ih hrest hs

end Grammar

namespace Script

variable {source : String} {script : Script}

theorem exists_statements_of_ofSource (h : ofSource source = .ok script) :
    ∃ ts, Token.ofSource source.toList = .ok ts ∧
      Grammar.statements (Grammar.statementAt (ts.length + 1) false) (ts.length + 1) ts
        = .ok script.body := by
  obtain ⟨ts, hts, h⟩ := exists_of_bind h
  obtain ⟨body, hbody, h⟩ := exists_of_bind h
  cases h
  exact ⟨ts, hts, hbody⟩

/-- **The statements of a script stand one after another.** -/
theorem sorted_spans_of_ofSource (h : ofSource source = .ok script) :
    (script.body.map Stmt.span).Pairwise Span.Before := by
  obtain ⟨ts, hts, hbody⟩ := exists_statements_of_ofSource h
  exact (Token.sorted_positions hts).sublist
    (Grammar.spans_sublist_positions (Grammar.places_statementAt _ false) hbody)

/-- **The functions of a script define no functions.** -/
theorem definesNothing_of_ofSource (h : ofSource source = .ok script) {d : FunctionDef}
    (hd : d ∈ script.body.filterMap Stmt.definition?) :
    Stmt.blockDefinesNothing d.body = true := by
  obtain ⟨ts, -, hbody⟩ := exists_statements_of_ofSource h
  obtain ⟨s, hs, hd⟩ := List.mem_filterMap.1 hd
  obtain ⟨ts', rest, hstmt⟩ := Grammar.exists_of_mem_statements hbody hs
  exact Grammar.definesNothing_of_definition? hstmt hd

end Script

end ReactiveScript

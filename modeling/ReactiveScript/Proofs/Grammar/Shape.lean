import ReactiveScript.Proofs.Grammar.Statement
import ReactiveScript.Proofs.Grammar.WellFormed

/-!
# What scripts are like

Not every list of statements comes from a text.  In one that does, blocks are not empty, the
parameters of a function are different, functions are defined outside functions, and results are
returned inside functions.

* `Stmt.Shaped`, `Script.WellFormed` — what statements and scripts are like.
* `Script.wellFormed_of_ofSource` — every script that is read is well formed.
-/

set_option autoImplicit false

namespace ReactiveScript

namespace Stmt

mutual

/-- How a statement is put together, inside a function or outside: what it assigns and defines are
words, its blocks are not empty, functions are defined outside functions and results are returned
inside. -/
def Shaped (inside : Bool) : Stmt → Prop
  | .assign _ target _ => Token.IsWord target
  | .expr _ _ => True
  | .define _ name params _ body =>
    inside = false ∧ Token.IsWord name ∧ (∀ p ∈ params, Token.IsWord p) ∧ params.Nodup ∧
      body ≠ [] ∧ BlockShaped true body
  | .result _ _ => inside = true
  | .choose _ branches otherwise =>
    branches ≠ [] ∧ BranchesShaped inside branches ∧ BlockShaped inside otherwise
  | .loop _ target _ body => Token.IsWord target ∧ body ≠ [] ∧ BlockShaped inside body
  | .pass _ => True

/-- How the statements of a block are put together. -/
def BlockShaped (inside : Bool) : List Stmt → Prop
  | [] => True
  | s :: rest => Shaped inside s ∧ BlockShaped inside rest

/-- How the branches of a choice are put together. -/
def BranchesShaped (inside : Bool) : List (Expr × List Stmt) → Prop
  | [] => True
  | (_, body) :: rest => body ≠ [] ∧ BlockShaped inside body ∧ BranchesShaped inside rest

end

end Stmt

namespace Grammar

variable {ts us : List Located} {inside : Bool}

/-- All of some expressions are well formed. -/
def AllWellFormed (es : List Expr) : Prop := ∀ e ∈ es, e.WellFormed

theorem AllWellFormed.singleton {e : Expr} (h : e.WellFormed) : AllWellFormed [e] :=
  List.forall_mem_singleton.2 h

theorem AllWellFormed.append {es es' : List Expr} (h : AllWellFormed es) (h' : AllWellFormed es') :
    AllWellFormed (es ++ es') :=
  List.forall_mem_append.2 ⟨h, h'⟩

/-- A statement inside a function or outside is put together as it has to be, of expressions that
are well formed. -/
def GoodStmt (inside : Bool) (s : Stmt) : Prop := s.Shaped inside ∧ AllWellFormed s.expressions

/-- The same for the statements of a block, which is not empty. -/
def GoodBlock (inside : Bool) (ss : List Stmt) : Prop :=
  ss ≠ [] ∧ Stmt.BlockShaped inside ss ∧ AllWellFormed (Stmt.blockExpressions ss)

/-- What a parser makes of well-formed tokens is as `P` says. -/
def Yields {α : Type} (P : α → Prop) (p : Parser α) : Prop :=
  ∀ ⦃ts a rest⦄, Tidy ts → p ts = .ok (a, rest) → P a ∧ Tidy rest

theorem Tidy.suffix (h : Tidy ts) (hsub : us <:+ ts) : Tidy us := h.mono hsub.subset

theorem yields_phrase : Yields Expr.WellFormed phrase := by
  intro ts e rest hts hp
  obtain ⟨used, rfl, hforms⟩ :=
    forms_expressionAt (wellFormed_of_pieces fun _ _ => Expr.wellFormed_of_ofSource) _ hp
  exact ⟨hforms hts.append.1, hts.append.2⟩

theorem yields_expectName : Yields Token.IsWord expectName := by
  intro ts a rest hts hp
  rw [expectName.eq_def] at hp
  split at hp
  · cases hp
    exact hts.cons
  · cases hp

theorem yields_afterItem {α : Type} {P : α → Prop} {close : Mark} {more : Parser α} {nothing : α}
    (hmore : Yields P more) (hnothing : P nothing) : Yields P (afterItem close more nothing) := by
  intro ts a rest hts hp
  rw [afterItem.eq_def] at hp
  split at hp
  · exact hmore hts.cons.2 hp
  · obtain ⟨ts', hexpect, hp⟩ := exists_of_bind hp
    cases hp
    exact ⟨hnothing, hts.suffix (suffix_expect hexpect)⟩

/-! ## Statements on a line -/

theorem yields_simple (inside : Bool) : Yields (GoodStmt inside) (simple inside) := by
  intro ts s rest hts hp
  rw [simple.eq_def] at hp
  split at hp
  · split at hp
    · cases hp
    · rename_i hinside
      have hinside : inside = true := by simpa using hinside
      split at hp
      · cases hp
        exact ⟨⟨hinside, List.forall_mem_nil _⟩, hts.cons.2⟩
      · obtain ⟨⟨e, ts₁⟩, he, hp⟩ := exists_of_bind hp
        cases hp
        obtain ⟨he, hrest⟩ := yields_phrase hts.cons.2 he
        exact ⟨⟨hinside, .singleton he⟩, hrest⟩
  · cases hp
    exact ⟨⟨trivial, List.forall_mem_nil _⟩, hts.cons.2⟩
  · obtain ⟨⟨e, ts₁⟩, he, hp⟩ := exists_of_bind hp
    cases hp
    obtain ⟨he, hrest⟩ := yields_phrase hts.cons.2.cons.2 he
    exact ⟨⟨hts.cons.1, .singleton he⟩, hrest⟩
  · obtain ⟨⟨e, ts₁⟩, he, hp⟩ := exists_of_bind hp
    cases hp
    obtain ⟨he, hrest⟩ := yields_phrase hts he
    exact ⟨⟨trivial, .singleton he⟩, hrest⟩

theorem yields_simpleLine (inside : Bool) : Yields (GoodStmt inside) (simpleLine inside) := by
  intro ts s rest hts hp
  obtain ⟨⟨stmt, ts₁⟩, hstmt, hp⟩ := exists_of_bind hp
  obtain ⟨ts₂, hend, hp⟩ := exists_of_bind hp
  cases hp
  obtain ⟨hs, hrest⟩ := yields_simple inside hts hstmt
  exact ⟨hs, hrest.suffix (suffix_endStatement hend)⟩

/-! ## Statements with blocks -/

theorem yields_block {statement : Parser Stmt} (h : Yields (GoodStmt inside) statement) :
    Yields (GoodBlock inside) (block inside statement) := by
  have hfrom : ∀ n, Yields (fun ss => Stmt.BlockShaped inside ss ∧
      AllWellFormed (Stmt.blockExpressions ss)) (blockFrom statement n) := by
    intro n
    induction n with
    | zero => exact fun ts a rest _ hp => by cases hp
    | succ n ih =>
      intro ts a rest hts hp
      have hskip := hts.suffix (suffix_skipLines ts)
      rw [blockFrom] at hp
      dsimp only at hp
      split at hp
      · cases hp
        exact ⟨⟨trivial, List.forall_mem_nil _⟩, hskip.suffix (List.drop_suffix 1 _)⟩
      · cases hp
        exact ⟨⟨trivial, List.forall_mem_nil _⟩, hskip⟩
      · obtain ⟨⟨stmt, ts₁⟩, hstmt, hp⟩ := exists_of_bind hp
        obtain ⟨⟨stmts, ts₂⟩, hstmts, hp⟩ := exists_of_bind hp
        cases hp
        obtain ⟨⟨hshape, hexprs⟩, hts₁⟩ := h hskip hstmt
        obtain ⟨⟨hshapes, hmore⟩, hts₂⟩ := ih hts₁ hstmts
        exact ⟨⟨⟨hshape, hshapes⟩, hexprs.append hmore⟩, hts₂⟩
  intro ts a rest hts hp
  obtain ⟨ts₁, hcolon, hp⟩ := exists_of_bind hp
  have hts₁ := hts.suffix (suffix_expect hcolon)
  split at hp
  · obtain ⟨ts₂, hindent, hp⟩ := exists_of_bind hp
    obtain ⟨⟨body, ts₃⟩, hbody, hp⟩ := exists_of_bind hp
    dsimp only at hp
    split at hp
    · cases hp
    · rename_i hne
      cases hp
      have hts₂ := (hts₁.cons.2.suffix (suffix_skipLines _)).suffix (suffix_expect hindent)
      obtain ⟨hblock, hrest⟩ := hfrom _ hts₂ hbody
      exact ⟨⟨fun hnil => hne (hnil ▸ rfl), hblock⟩, hrest⟩
  · obtain ⟨⟨stmt, ts₂⟩, hstmt, hp⟩ := exists_of_bind hp
    cases hp
    obtain ⟨⟨hshape, hexprs⟩, hrest⟩ := yields_simpleLine inside hts₁ hstmt
    exact ⟨⟨List.cons_ne_nil _ _, ⟨hshape, trivial⟩, hexprs.append (List.forall_mem_nil _)⟩, hrest⟩

/-- The parameters of a function are different words, and different from those in front. -/
theorem yields_parameters (n : Nat) (seen : List String) :
    Yields (fun ps => (∀ p ∈ ps, Token.IsWord p ∧ p ∉ seen) ∧ ps.Nodup) (parameters n seen) := by
  induction n generalizing seen with
  | zero => exact fun ts a rest _ hp => by cases hp
  | succ n ih =>
    intro ts a rest hts hp
    rw [parameters.eq_def] at hp
    dsimp only at hp
    split at hp
    · cases hp
      exact ⟨⟨List.forall_mem_nil _, List.nodup_nil⟩, hts.cons.2⟩
    · obtain ⟨⟨p, ts₁⟩, hname, hp⟩ := exists_of_bind hp
      dsimp only at hp
      split at hp
      · cases hp
      · rename_i hnew
        obtain ⟨⟨ps, ts₂⟩, hmore, hp⟩ := exists_of_bind hp
        cases hp
        obtain ⟨hp, hts₁⟩ := yields_expectName hts hname
        obtain ⟨⟨hps, hnodup⟩, hts₂⟩ :=
          yields_afterItem (ih _) ⟨List.forall_mem_nil _, List.nodup_nil⟩ hts₁ hmore
        refine ⟨⟨List.forall_mem_cons.2 ⟨⟨hp, hnew⟩, fun q hq => ?_⟩, ?_⟩, hts₂⟩
        · exact ⟨(hps q hq).1, fun hmem => (hps q hq).2 (List.mem_cons_of_mem p hmem)⟩
        · exact List.nodup_cons.2 ⟨fun hmem => (hps p hmem).2 (List.mem_cons_self ..), hnodup⟩

section Block

variable {body : Parser (List Stmt)}

theorem yields_definition (h : Yields (GoodBlock true) body) (s : Span) :
    Yields (GoodStmt false) (definition s body) := by
  intro ts a rest hts hp
  obtain ⟨⟨name, ts₁⟩, hname, hp⟩ := exists_of_bind hp
  obtain ⟨ts₂, hopen, hp⟩ := exists_of_bind hp
  obtain ⟨⟨params, ts₃⟩, hparams, hp⟩ := exists_of_bind hp
  obtain ⟨⟨stmts, ts₄⟩, hbody, hp⟩ := exists_of_bind hp
  cases hp
  obtain ⟨hname, hts₁⟩ := yields_expectName hts hname
  obtain ⟨⟨hwords, hnodup⟩, hts₃⟩ :=
    yields_parameters _ _ (hts₁.suffix (suffix_expect hopen)) hparams
  obtain ⟨⟨hne, hshape, hexprs⟩, hrest⟩ := h hts₃ hbody
  exact ⟨⟨⟨rfl, hname, fun p hp => (hwords p hp).1, hnodup, hne, hshape⟩, hexprs⟩, hrest⟩

theorem yields_branch (h : Yields (GoodBlock inside) body) :
    Yields (fun b => b.1.WellFormed ∧ GoodBlock inside b.2) (branch body) := by
  intro ts a rest hts hp
  obtain ⟨⟨test, ts₁⟩, htest, hp⟩ := exists_of_bind hp
  obtain ⟨⟨stmts, ts₂⟩, hbody, hp⟩ := exists_of_bind hp
  cases hp
  obtain ⟨htest, hts₁⟩ := yields_phrase hts htest
  obtain ⟨hblock, hts₂⟩ := h hts₁ hbody
  exact ⟨⟨htest, hblock⟩, hts₂⟩

theorem yields_branches (h : Yields (GoodBlock inside) body) (n : Nat) :
    Yields (fun x => (Stmt.BranchesShaped inside x.1 ∧ Stmt.BlockShaped inside x.2) ∧
      AllWellFormed (Stmt.branchExpressions x.1 ++ Stmt.blockExpressions x.2))
      (branches body n) := by
  induction n with
  | zero =>
    intro ts a rest hts hp
    cases hp
    exact ⟨⟨⟨trivial, trivial⟩, List.forall_mem_nil _⟩, hts⟩
  | succ n ih =>
    intro ts a rest hts hp
    have hskip := hts.suffix (suffix_skipLines ts)
    rw [branches] at hp
    split at hp
    · rename_i hfront
      rw [hfront] at hskip
      obtain ⟨⟨⟨test, stmts⟩, ts₁⟩, hb, hp⟩ := exists_of_bind hp
      obtain ⟨⟨⟨bs, otherwise⟩, ts₂⟩, hbs, hp⟩ := exists_of_bind hp
      cases hp
      obtain ⟨⟨htest, hne, hshape, hexprs⟩, hts₁⟩ := yields_branch h hskip.cons.2 hb
      obtain ⟨⟨⟨hshapes, hlast⟩, hmore⟩, hts₂⟩ := ih hts₁ hbs
      obtain ⟨hbranches, hotherwise⟩ := List.forall_mem_append.1 hmore
      refine ⟨⟨⟨⟨hne, hshape, hshapes⟩, hlast⟩, ?_⟩, hts₂⟩
      exact .append (List.forall_mem_cons.2 ⟨htest, hexprs.append hbranches⟩) hotherwise
    · rename_i hfront
      rw [hfront] at hskip
      obtain ⟨⟨otherwise, ts₁⟩, hotherwise, hp⟩ := exists_of_bind hp
      cases hp
      obtain ⟨⟨-, hshape, hexprs⟩, hts₁⟩ := h hskip.cons.2 hotherwise
      exact ⟨⟨⟨trivial, hshape⟩, hexprs⟩, hts₁⟩
    · cases hp
      exact ⟨⟨⟨trivial, trivial⟩, List.forall_mem_nil _⟩, hskip⟩

theorem yields_choice (h : Yields (GoodBlock inside) body) (s : Span) :
    Yields (GoodStmt inside) (choice s body) := by
  intro ts a rest hts hp
  obtain ⟨⟨⟨test, stmts⟩, ts₁⟩, hb, hp⟩ := exists_of_bind hp
  obtain ⟨⟨⟨bs, otherwise⟩, ts₂⟩, hbs, hp⟩ := exists_of_bind hp
  cases hp
  obtain ⟨⟨htest, hne, hshape, hexprs⟩, hts₁⟩ := yields_branch h hts hb
  obtain ⟨⟨⟨hshapes, hlast⟩, hmore⟩, hts₂⟩ := yields_branches h _ hts₁ hbs
  obtain ⟨hbranches, hotherwise⟩ := List.forall_mem_append.1 hmore
  refine ⟨⟨⟨List.cons_ne_nil _ _, ⟨hne, hshape, hshapes⟩, hlast⟩, ?_⟩, hts₂⟩
  exact .append (List.forall_mem_cons.2 ⟨htest, hexprs.append hbranches⟩) hotherwise

theorem yields_repetition (h : Yields (GoodBlock inside) body) (s : Span) :
    Yields (GoodStmt inside) (repetition s body) := by
  intro ts a rest hts hp
  obtain ⟨⟨target, ts₁⟩, htarget, hp⟩ := exists_of_bind hp
  obtain ⟨ts₂, hin, hp⟩ := exists_of_bind hp
  obtain ⟨⟨series, ts₃⟩, hseries, hp⟩ := exists_of_bind hp
  obtain ⟨⟨stmts, ts₄⟩, hbody, hp⟩ := exists_of_bind hp
  cases hp
  obtain ⟨htarget, hts₁⟩ := yields_expectName hts htarget
  obtain ⟨hseries, hts₃⟩ := yields_phrase (hts₁.suffix (suffix_expect hin)) hseries
  obtain ⟨⟨hne, hshape, hexprs⟩, hrest⟩ := h hts₃ hbody
  exact ⟨⟨⟨htarget, hne, hshape⟩, List.forall_mem_cons.2 ⟨hseries, hexprs⟩⟩, hrest⟩

end Block

theorem yields_statementAt (n : Nat) (inside : Bool) :
    Yields (GoodStmt inside) (statementAt n inside) := by
  induction n generalizing inside with
  | zero => exact fun ts a rest _ hp => by cases hp
  | succ n ih =>
    intro ts s rest hts hp
    rw [statementAt, statement.eq_def] at hp
    split at hp
    · split at hp
      · cases hp
      · rename_i hinside
        obtain rfl : inside = false := by simpa using hinside
        exact yields_definition (yields_block (ih true)) _ hts.cons.2 hp
    · exact yields_choice (yields_block (ih inside)) _ hts.cons.2 hp
    · exact yields_repetition (yields_block (ih inside)) _ hts.cons.2 hp
    · exact yields_simpleLine inside hts hp

theorem wellFormed_of_statements {p : Parser Stmt} (hp : Yields (GoodStmt false) p) {n : Nat}
    (hts : Tidy ts) {ss : List Stmt} (h : statements p n ts = .ok ss) :
    Stmt.BlockShaped false ss ∧ AllWellFormed (Stmt.blockExpressions ss) := by
  induction n generalizing ts ss with
  | zero => cases h
  | succ n ih =>
    have hskip := hts.suffix (suffix_skipLines ts)
    rw [statements] at h
    dsimp only at h
    split at h
    · cases h
      exact ⟨trivial, List.forall_mem_nil _⟩
    · cases h
    · obtain ⟨⟨stmt, ts₁⟩, hstmt, h⟩ := exists_of_bind h
      obtain ⟨rest, hrest, h⟩ := exists_of_bind h
      cases h
      obtain ⟨⟨hshape, hexprs⟩, hts₁⟩ := hp hskip hstmt
      obtain ⟨hshapes, hmore⟩ := ih hts₁ hrest
      exact ⟨⟨hshape, hshapes⟩, hexprs.append hmore⟩

end Grammar

/-- A script that is put together as it has to be, of expressions that are well formed. -/
def Script.WellFormed (script : Script) : Prop :=
  Stmt.BlockShaped false script.body ∧ ∀ e ∈ script.expressions, e.WellFormed

/-- **Every script that is read is well formed.** -/
theorem Script.wellFormed_of_ofSource {source : String} {script : Script}
    (h : Script.ofSource source = .ok script) : script.WellFormed := by
  obtain ⟨ts, hts, h⟩ := exists_of_bind h
  obtain ⟨body, hbody, h⟩ := exists_of_bind h
  cases h
  exact Grammar.wellFormed_of_statements (Grammar.yields_statementAt _ false)
    (Token.wellFormed_of_ofSource hts) hbody

end ReactiveScript

import ReactiveScript.Proofs.Grammar.Printed
import ReactiveScript.Proofs.Grammar.Shape
import ReactiveScript.Proofs.Token.Blocks

/-!
# Printed scripts

The lines of a printed script are laid out as the tokens of its statements, every block between the
marks of its indentation.

* `Expr.neutral_tokens` — a printed expression leaves no bracket open.
* `Stmt.tokens` — the tokens of a printed statement.
* `Stmt.begins_print` — how a printed statement is laid out.
* `Script.exists_ofSource_print` — the tokens of a printed script.
-/

set_option autoImplicit false

namespace ReactiveScript

open Token

namespace Expr

theorem neutral_separated {tss : List (List Token)} (h : ∀ ts ∈ tss, Neutral ts) :
    Neutral (separated tss) := by
  induction tss with
  | nil => exact .nil
  | cons ts tss ih =>
    obtain ⟨hts, htss⟩ := List.forall_mem_cons.1 h
    cases tss with
    | nil => simpa [separated] using hts
    | cons ts' tss =>
      rw [separated, List.intercalate_cons_cons, List.append_assoc]
      exact hts.append (.cons (fun _ => rfl) (ih htss))

mutual

/-- **A printed expression leaves no bracket open.** -/
theorem neutral_tokens : (e : Expr) → Neutral e.tokens
  | .literal _ .null | .literal _ (.bool true) | .literal _ (.bool false) | .literal _ (.number _)
  | .literal _ (.text _) | .literal _ (.list _) | .literal _ (.dict _) => .cons (fun _ => rfl) .nil
  | .name _ _ => .cons (fun _ => rfl) .nil
  | .format _ _ => .cons (fun _ => rfl) .nil
  | .list _ es => .bracket rfl ⟨rfl, rfl⟩ (neutral_separated (neutral_allTokens es)) .nil
  | .dict _ es => .bracket rfl ⟨rfl, rfl⟩ (neutral_separated (neutral_entryTokens es)) .nil
  | .unary _ op e => by
    have hbody : Neutral (op.token :: e.tokens) :=
      .cons (by cases op <;> exact fun _ => rfl) (neutral_tokens e)
    exact .bracket rfl ⟨rfl, rfl⟩ hbody .nil
  | .binary _ op l r => by
    have hbody : Neutral (l.tokens ++ .mark op.mark :: r.tokens) :=
      (neutral_tokens l).append (.cons (by cases op <;> exact fun _ => rfl) (neutral_tokens r))
    simpa [tokens] using
      Neutral.bracket (o := .openParen) (c := .closeParen) rfl ⟨rfl, rfl⟩ hbody .nil
  | .logical _ op l r => by
    have hbody : Neutral (l.tokens ++ .keyword op.keyword :: r.tokens) :=
      (neutral_tokens l).append (.cons (fun _ => rfl) (neutral_tokens r))
    simpa [tokens] using
      Neutral.bracket (o := .openParen) (c := .closeParen) rfl ⟨rfl, rfl⟩ hbody .nil
  | .call _ f args kws => by
    have hitems : ∀ ts ∈ allTokens args ++ keywordTokens kws, Neutral ts :=
      List.forall_mem_append.2 ⟨neutral_allTokens args, neutral_keywordTokens kws⟩
    exact .cons (fun _ => rfl) (.bracket rfl ⟨rfl, rfl⟩ (neutral_separated hitems) .nil)
  | .index _ e i => (neutral_tokens e).append (.bracket rfl ⟨rfl, rfl⟩ (neutral_tokens i) .nil)
  | .attribute _ e _ =>
    (neutral_tokens e).append (.cons (fun _ => rfl) (.cons (fun _ => rfl) .nil))

theorem neutral_allTokens : (es : List Expr) → ∀ ts ∈ allTokens es, Neutral ts
  | [] => List.forall_mem_nil _
  | e :: es => List.forall_mem_cons.2 ⟨neutral_tokens e, neutral_allTokens es⟩

theorem neutral_entryTokens : (es : List (Expr × Expr)) → ∀ ts ∈ entryTokens es, Neutral ts
  | [] => List.forall_mem_nil _
  | (k, v) :: es => List.forall_mem_cons.2
    ⟨(neutral_tokens k).append (.cons (fun _ => rfl) (neutral_tokens v)), neutral_entryTokens es⟩

theorem neutral_keywordTokens : (es : List (String × Expr)) → ∀ ts ∈ keywordTokens es, Neutral ts
  | [] => List.forall_mem_nil _
  | (_, v) :: es => List.forall_mem_cons.2
    ⟨.cons (fun _ => rfl) (.cons (fun _ => rfl) (neutral_tokens v)), neutral_keywordTokens es⟩

end

end Expr

namespace Stmt

/-! ## The tokens of printed statements -/

/-- The tokens of a block behind the first line of a statement. -/
def suite (body : List Token) : List Token :=
  .mark .colon :: .newline :: .indent :: (body ++ [.dedent])

mutual

/-- The tokens of a printed statement. -/
def tokens : Stmt → List Token
  | .assign _ target e => .name target :: .mark .assign :: (e.tokens ++ [.newline])
  | .expr _ e => e.tokens ++ [.newline]
  | .define _ f params _ body =>
    .keyword .kwDef :: .name f :: .mark .openParen ::
      (Expr.separated (params.map fun p => [.name p]) ++
        .mark .closeParen :: suite (blockTokens body))
  | .result _ (some e) => .keyword .kwReturn :: (e.tokens ++ [.newline])
  | .result _ none => [.keyword .kwReturn, .newline]
  | .choose _ branches otherwise =>
    branchTokens true branches ++
      if otherwise.isEmpty then [] else .keyword .kwElse :: suite (blockTokens otherwise)
  | .loop _ target e body =>
    .keyword .kwFor :: .name target :: .keyword .kwIn :: (e.tokens ++ suite (blockTokens body))
  | .pass _ => [.keyword .kwPass, .newline]

/-- The tokens of the statements of a printed block. -/
def blockTokens : List Stmt → List Token
  | [] => []
  | s :: rest => tokens s ++ blockTokens rest

/-- The tokens of the branches of a printed choice. -/
def branchTokens (first : Bool) : List (Expr × List Stmt) → List Token
  | [] => []
  | (test, body) :: rest =>
    .keyword (if first then .kwIf else .kwElif) ::
      (test.tokens ++ (suite (blockTokens body) ++ branchTokens false rest))

end

/-! ## Lines -/

section Lines

variable {d : Nat} {more : List Char} {ts ts' : List Token} {e : Expr}

/-- A line that begins with a reserved word. -/
theorem isLine_keyword (k : Keyword) {w : List Char} (h : Writes w ts)
    (hw : ∀ rest, Token.Apart rest → Token.Apart (w ++ rest)) (hts : Neutral ts) :
    IsLine (k.text.toList ++ w) (.keyword k :: ts) where
  writes := (writes_keyword k).append hw h
  ne_nil := List.cons_ne_nil _ _
  first := by cases k <;> exact ⟨_, _, rfl, rfl⟩
  neutral := .cons (fun _ => rfl) hts

theorem isLine_print (he : e.Printable) : IsLine e.print.toList e.tokens where
  writes := e.writes_print he
  ne_nil := by cases e <;> simp [Expr.tokens]
  first := by
    obtain ⟨c, cs, hcons, hc, -⟩ := e.exists_cons_print he
    exact ⟨c, cs, hcons, hc.isGap⟩
  neutral := e.neutral_tokens

theorem isLine_assign {target : String} (ht : IsWord target) (he : e.Printable) :
    IsLine (target.toList ++ ' ' :: '=' :: ' ' :: e.print.toList)
      (.name target :: .mark .assign :: e.tokens) where
  writes := (writes_name ht).append_cons (Expr.severs (by decide))
    ((e.writes_print he).markBlank .assign).blank
  ne_nil := List.cons_ne_nil _ _
  first := by
    obtain ⟨c, cs, hlist, hc, -⟩ := ht.spelt
    exact ⟨c, _, by rw [hlist, List.cons_append], isGap_of_inName (inName_of_startsName hc)⟩
  neutral := .cons (fun _ => rfl) (.cons (fun _ => rfl) e.neutral_tokens)

theorem isLine_result (he : e.Printable) :
    IsLine ("return".toList ++ ' ' :: e.print.toList) (.keyword .kwReturn :: e.tokens) :=
  isLine_keyword .kwReturn (e.writes_print he).blank (fun _ _ => Expr.severs (by decide) _)
    e.neutral_tokens

/-- The first line of a branch. -/
theorem isLine_test (k : Keyword) (he : e.Printable) :
    IsLine (k.text.toList ++ ' ' :: (e.print.toList ++ [':']))
      ((.keyword k :: e.tokens) ++ [.mark .colon]) :=
  isLine_keyword k
    ((e.writes_print he).append_cons (Expr.severs (by decide)) (.mark .colon rfl .nil)).blank
    (fun _ _ => Expr.severs (by decide) _) (e.neutral_tokens.append (.cons (fun _ => rfl) .nil))

theorem isLine_else : IsLine ("else".toList ++ [':']) ([.keyword .kwElse] ++ [.mark .colon]) :=
  isLine_keyword .kwElse (.mark .colon rfl .nil) (fun _ _ => Expr.severs (by decide) _)
    (.cons (fun _ => rfl) .nil)

/-- The first line of a loop. -/
theorem isLine_loop {target : String} (ht : IsWord target) (he : e.Printable) :
    IsLine ("for".toList ++ ' ' :: (target.toList ++ ' ' ::
        ("in".toList ++ ' ' :: (e.print.toList ++ [':']))))
      ((.keyword .kwFor :: .name target :: .keyword .kwIn :: e.tokens) ++ [.mark .colon]) :=
  have hseries := (e.writes_print he).append_cons (Expr.severs (by decide)) (.mark .colon rfl .nil)
  have hin := (writes_keyword .kwIn).append_cons (Expr.severs (by decide)) hseries.blank
  isLine_keyword .kwFor ((writes_name ht).append_cons (Expr.severs (by decide)) hin.blank).blank
    (fun _ _ => Expr.severs (by decide) _)
    (.cons (fun _ => rfl) (.cons (fun _ => rfl)
      (e.neutral_tokens.append (.cons (fun _ => rfl) .nil))))

theorem writes_words {words : List String} (h : ∀ p ∈ words, IsWord p) :
    List.Forall₂ (fun w ts => Writes w.toList ts) words (words.map fun p => [.name p]) := by
  induction words with
  | nil => exact .nil
  | cons p words ih =>
    obtain ⟨hp, hwords⟩ := List.forall_mem_cons.1 h
    exact .cons (writes_name hp) (ih hwords)

/-- The first line of a function. -/
theorem isLine_define {f : String} {params : List String} (hf : IsWord f)
    (hparams : ∀ p ∈ params, IsWord p) :
    IsLine ("def".toList ++ ' ' :: (f.toList ++ '(' ::
        ((String.intercalate ", " params).toList ++ [')', ':'])))
      ((.keyword .kwDef :: .name f :: .mark .openParen ::
        (Expr.separated (params.map fun p => [.name p]) ++ [.mark .closeParen])) ++
          [.mark .colon]) := by
  have hitems := (Expr.writes_separated (writes_words hparams)).append_cons
    (Expr.severs (by decide)) (.mark .closeParen rfl (.mark .colon rfl .nil))
  have hneutral : Neutral (Expr.separated (params.map fun p => [Token.name p])) :=
    Expr.neutral_separated (by simpa using fun p _ => Neutral.cons (fun _ => rfl) .nil)
  rw [List.cons_append, List.cons_append, List.cons_append, List.append_assoc]
  refine isLine_keyword .kwDef ((writes_name hf).append_cons (Expr.severs (by decide))
    (.mark .openParen rfl hitems)).blank (fun _ _ => Expr.severs (by decide) _) ?_
  exact .cons (fun _ => rfl) (.bracket rfl ⟨rfl, rfl⟩ hneutral (.cons (fun _ => rfl) .nil))

/-- A line and a block behind it. -/
theorem begins_suite {w body : List Char} (h : IsLine w (ts ++ [.mark .colon]))
    (hbody : Begins (d + 1) body ts') :
    Begins d (List.replicate (4 * d) ' ' ++ (w ++ '\n' :: body))
      (ts ++ .mark .colon :: .newline :: .indent :: ts') := by
  have hline := begins_line h hbody.indent
  rwa [List.append_assoc, List.singleton_append] at hline

/-- A statement and the block behind it. -/
theorem begins_cons {s : Stmt} {ss : List Stmt}
    (h : Begins d ((print d s).toList ++ ((printBlock d ss).toList ++ more))
      (s.tokens ++ (blockTokens ss ++ ts))) :
    Begins d ((printBlock d (s :: ss)).toList ++ more) (blockTokens (s :: ss) ++ ts) := by
  simpa [printBlock, blockTokens] using h

/-- A branch and those behind it. -/
theorem begins_branch (first : Bool) {test : Expr} (htest : test.Printable) {body : List Stmt}
    {bs : List (Expr × List Stmt)}
    (h : Begins (d + 1)
      ((printBlock (d + 1) body).toList ++ ((printBranches d false bs).toList ++ more))
      (blockTokens body ++ .dedent :: (branchTokens false bs ++ ts))) :
    Begins d ((printBranches d first ((test, body) :: bs)).toList ++ more)
      (branchTokens first ((test, body) :: bs) ++ ts) := by
  cases first with
  | true =>
    have hsuite := begins_suite (isLine_test .kwIf htest) h
    simpa [printBranches, branchWord, branchTokens, pad, suite, Keyword.text] using hsuite
  | false =>
    have hsuite := begins_suite (isLine_test .kwElif htest) h
    simpa [printBranches, branchWord, branchTokens, pad, suite, Keyword.text] using hsuite

end Lines

/-! ## Layout -/

mutual

/-- **How a printed statement is laid out**, and what follows upon it. -/
theorem begins_print {inside : Bool} : (s : Stmt) → s.Shaped inside →
    (∀ e ∈ s.expressions, e.Printable) → ∀ {d : Nat} {more : List Char} {ts : List Token},
    Follows d more ts → Begins d ((print d s).toList ++ more) (s.tokens ++ ts)
  | .assign _ target e, hs, he, _, _, _, hmore => by
    have hline := begins_line (isLine_assign hs (List.forall_mem_singleton.1 he)) hmore.lays
    simpa [print, pad, tokens] using hline
  | .expr _ e, _, he, _, _, _, hmore => by
    have hline := begins_line (isLine_print (List.forall_mem_singleton.1 he)) hmore.lays
    simpa [print, pad, tokens] using hline
  | .define _ f params _ body, hs, he, _, _, _, hmore => by
    obtain ⟨-, hf, hparams, -, hne, hbody⟩ := hs
    have hsuite := begins_suite (isLine_define hf hparams)
      (begins_printBlock body hne hbody he hmore.dedent)
    simpa [print, pad, tokens, suite] using hsuite
  | .result _ (some e), _, he, _, _, _, hmore => by
    have hline := begins_line (isLine_result (List.forall_mem_singleton.1 he)) hmore.lays
    simpa [print, pad, tokens] using hline
  | .result _ none, _, _, _, _, _, hmore => by
    have hline := begins_line (isLine_keyword .kwReturn .nil (fun _ h => h) .nil) hmore.lays
    simpa [print, pad, tokens, Keyword.text] using hline
  | .choose _ branches otherwise, hs, he, d, more, ts, hmore => by
    obtain ⟨hne, hbranches, hotherwise⟩ := hs
    obtain ⟨hebranches, heotherwise⟩ := List.forall_mem_append.1 he
    have helse := follows_printElse otherwise hotherwise heotherwise hmore
    have hchoice := begins_printBranches true branches hne hbranches hebranches helse
    simpa [print, tokens] using hchoice
  | .loop _ target e body, hs, he, _, _, _, hmore => by
    obtain ⟨ht, hne, hbody⟩ := hs
    obtain ⟨he, hebody⟩ := List.forall_mem_cons.1 he
    have hsuite := begins_suite (isLine_loop ht he)
      (begins_printBlock body hne hbody hebody hmore.dedent)
    simpa [print, pad, tokens, suite] using hsuite
  | .pass _, _, _, _, _, _, hmore => by
    have hline := begins_line (isLine_keyword .kwPass .nil (fun _ h => h) .nil) hmore.lays
    simpa [print, pad, tokens, Keyword.text] using hline

theorem begins_printBlock {inside : Bool} : (ss : List Stmt) → ss ≠ [] → BlockShaped inside ss →
    (∀ e ∈ blockExpressions ss, e.Printable) → ∀ {d : Nat} {more : List Char} {ts : List Token},
    Follows d more ts → Begins d ((printBlock d ss).toList ++ more) (blockTokens ss ++ ts)
  | [], hne, _, _, _, _, _, _ => absurd rfl hne
  | s :: ss, _, hs, he, _, _, _, hmore => by
    obtain ⟨hes, hess⟩ := List.forall_mem_append.1 he
    exact begins_cons (begins_print s hs.1 hes (follows_printBlock ss hs.2 hess hmore))

theorem follows_printBlock {inside : Bool} : (ss : List Stmt) → BlockShaped inside ss →
    (∀ e ∈ blockExpressions ss, e.Printable) → ∀ {d : Nat} {more : List Char} {ts : List Token},
    Follows d more ts → Follows d ((printBlock d ss).toList ++ more) (blockTokens ss ++ ts)
  | [], _, _, _, _, _, hmore => hmore
  | s :: ss, hs, he, _, _, _, hmore => by
    obtain ⟨hes, hess⟩ := List.forall_mem_append.1 he
    exact (begins_cons (begins_print s hs.1 hes (follows_printBlock ss hs.2 hess hmore))).follows

/-- The last block of a choice. -/
theorem follows_printElse {inside : Bool} : (ss : List Stmt) → BlockShaped inside ss →
    (∀ e ∈ blockExpressions ss, e.Printable) → ∀ {d : Nat} {more : List Char} {ts : List Token},
    Follows d more ts →
    Follows d
      ((if ss.isEmpty then "" else pad d ++ "else:\n" ++ printBlock (d + 1) ss).toList ++ more)
      ((if ss.isEmpty then [] else .keyword .kwElse :: suite (blockTokens ss)) ++ ts)
  | [], _, _, _, _, _, hmore => hmore
  | s :: ss, hs, he, _, _, _, hmore => by
    obtain ⟨hes, hess⟩ := List.forall_mem_append.1 he
    have hblock := begins_print s hs.1 hes (follows_printBlock ss hs.2 hess hmore.dedent)
    have hsuite := begins_suite isLine_else hblock
    simpa [pad, suite, printBlock, blockTokens] using hsuite.follows

theorem begins_printBranches {inside : Bool} (first : Bool) : (bs : List (Expr × List Stmt)) →
    bs ≠ [] → BranchesShaped inside bs → (∀ e ∈ branchExpressions bs, e.Printable) →
    ∀ {d : Nat} {more : List Char} {ts : List Token}, Follows d more ts →
    Begins d ((printBranches d first bs).toList ++ more) (branchTokens first bs ++ ts)
  | [], hne, _, _, _, _, _, _ => absurd rfl hne
  | (test, body) :: bs, _, hs, he, _, _, _, hmore => by
    obtain ⟨hne, hbody, hbs⟩ := hs
    obtain ⟨htest, he⟩ := List.forall_mem_cons.1 he
    obtain ⟨hebody, hebs⟩ := List.forall_mem_append.1 he
    have hrest := follows_printBranches bs hbs hebs hmore
    exact begins_branch first htest (begins_printBlock body hne hbody hebody hrest.dedent)

theorem follows_printBranches {inside : Bool} : (bs : List (Expr × List Stmt)) →
    BranchesShaped inside bs → (∀ e ∈ branchExpressions bs, e.Printable) →
    ∀ {d : Nat} {more : List Char} {ts : List Token}, Follows d more ts →
    Follows d ((printBranches d false bs).toList ++ more) (branchTokens false bs ++ ts)
  | [], _, _, _, _, _, hmore => hmore
  | (test, body) :: bs, hs, he, _, _, _, hmore => by
    obtain ⟨hne, hbody, hbs⟩ := hs
    obtain ⟨htest, he⟩ := List.forall_mem_cons.1 he
    obtain ⟨hebody, hebs⟩ := List.forall_mem_append.1 he
    have hrest := follows_printBranches bs hbs hebs hmore
    have hblock := begins_printBlock body hne hbody hebody hrest.dedent
    exact (begins_branch false htest hblock).follows

end

end Stmt

/-- **The tokens of a printed script.** -/
theorem Script.exists_ofSource_print {script : Script} (hs : Stmt.BlockShaped false script.body)
    (he : ∀ e ∈ script.expressions, e.Printable) :
    ∃ us, Token.ofSource script.print.toList = .ok us ∧
      us.map Located.token = Stmt.blockTokens script.body ++ [.finish] := by
  have hlays := (Stmt.follows_printBlock script.body hs he Token.follows_nil).lays
  rw [List.append_nil] at hlays
  exact hlays .start _ rfl

end ReactiveScript

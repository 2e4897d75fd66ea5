import ReactiveScript.Proofs.Token.Stream

/-!
# Where tokens stand

Every token of a text, those of layout included, stands at a position of the text, and so does
whatever keeps a text from being cut into tokens.  A format string stands in the text between its
quotes, character by character and on one line.

* `Token.exists_prefix_of_mem` — where a token stands.
* `Token.exists_prefix_of_error` — where a text that has no tokens is wrong.
* `Token.exists_format_of_mem` — where a format string stands.
-/

set_option autoImplicit false

namespace ReactiveScript

/-- The cause of an error is not in an interpolation. -/
def SyntaxError.Cause.Plain (cause : SyntaxError.Cause) : Prop := ∀ c, cause ≠ .interpolation c

namespace Token

namespace Layout

/-- The tokens of a lexeme stand where it does, and so does what is wrong with it. -/
theorem span_of_step {s : Layout} {x : Scanned} :
    (∀ ts s', s.step x = .ok (ts, s') → ∀ t ∈ ts, t.span = x.span) ∧
      ∀ err, s.step x = .error err → err.span = x.span ∧ err.cause.Plain := by
  constructor
  · intro ts s' h
    cases takes_of_step h with
    | comment | inside | blank => exact List.forall_mem_nil _
    | newline | token => exact List.forall_mem_singleton.2 rfl
    | indent => exact List.forall_mem_cons.2 ⟨rfl, List.forall_mem_singleton.2 rfl⟩
    | dedent =>
      refine List.forall_mem_append.2 ⟨fun t ht => ?_, List.forall_mem_singleton.2 rfl⟩
      rw [List.eq_of_mem_replicate ht]
  · intro err h
    cases hx : x.lexeme with
    | stray slice =>
      rw [step, hx] at h
      cases h
      exact ⟨rfl, fun _ => SyntaxError.Cause.noConfusion⟩
    | comment =>
      rw [step, hx] at h
      cases h
    | line =>
      rw [step, hx] at h
      dsimp only at h
      split at h <;> cases h
    | token t =>
      cases hs : s.atStart with
      | false =>
        rw [step_of_inside hx hs] at h
        cases h
      | true =>
        rw [step_of_atStart hx hs] at h
        rcases Nat.lt_or_ge s.level x.width with hlt | hle
        · rw [enter_of_lt hlt] at h
          cases h
        · by_cases hwidth : x.width = (remaining x.width s.levels).headD 0
          · rw [enter_of_eq hle hwidth] at h
            cases h
          · rw [enter_of_ne hle hwidth] at h
            cases h
            exact ⟨rfl, fun _ => SyntaxError.Cause.noConfusion⟩

/-- The tokens of a text stand at lexemes or at its end. -/
theorem span_of_run {last : Span} {s : Layout} {xs : List Scanned} {ts : List Located}
    (h : run last s xs = .ok ts) {t : Located} (ht : t ∈ ts) :
    t.span = last ∨ ∃ x ∈ xs, t.span = x.span := by
  induction xs generalizing s ts with
  | nil =>
    cases h
    rcases List.mem_append.1 ht with ht | ht
    · rcases List.mem_append.1 ht with ht | ht
      · split at ht
        · cases ht
        · exact Or.inl (congrArg Located.span (List.mem_singleton.1 ht))
      · obtain ⟨level, -, rfl⟩ := List.mem_map.1 ht
        exact Or.inl rfl
    · exact Or.inl (congrArg Located.span (List.mem_singleton.1 ht))
  | cons x xs ih =>
    obtain ⟨⟨tokens, s'⟩, hstep, h⟩ := exists_of_bind h
    obtain ⟨rest, hrest, h⟩ := exists_of_bind h
    cases h
    rcases List.mem_append.1 ht with ht | ht
    · exact Or.inr ⟨x, List.mem_cons_self .., span_of_step.1 _ _ hstep t ht⟩
    · exact (ih hrest ht).imp_right fun ⟨y, hy, hspan⟩ => ⟨y, List.mem_cons_of_mem x hy, hspan⟩

/-- What is wrong with a text is wrong with a lexeme. -/
theorem span_of_run_error {last : Span} {s : Layout} {xs : List Scanned} {err : SyntaxError}
    (h : run last s xs = .error err) : err.cause.Plain ∧ ∃ x ∈ xs, err.span = x.span := by
  induction xs generalizing s with
  | nil => cases h
  | cons x xs ih =>
    rcases error_of_bind h with hstep | ⟨⟨tokens, s'⟩, -, h⟩
    · obtain ⟨hspan, hplain⟩ := span_of_step.2 _ hstep
      exact ⟨hplain, x, List.mem_cons_self .., hspan⟩
    · rcases error_of_bind h with hrest | ⟨rest, -, h⟩
      · obtain ⟨hplain, y, hy, hspan⟩ := ih hrest
        exact ⟨hplain, y, List.mem_cons_of_mem x hy, hspan⟩
      · cases h

end Layout

variable {cs : List Char} {ts : List Located}

theorem exists_prefix_of_mem_scan {x : Scanned} (hx : x ∈ (scan .start cs).1) :
    ∃ u, u <+: cs ∧ x.span = Span.behind u := by
  obtain ⟨u, hfound⟩ := exists_foundBehind hx
  obtain ⟨c, rest, n, rfl, -⟩ := hfound.munch_eq
  exact ⟨u, List.prefix_append u _, hfound.span_eq⟩

/-- **Every token stands at a position of the text.** -/
theorem exists_prefix_of_mem (h : ofSource cs = .ok ts) {t : Located} (ht : t ∈ ts) :
    ∃ u, u <+: cs ∧ t.span = Span.behind u := by
  rcases Layout.span_of_run h ht with hlast | ⟨x, hx, hspan⟩
  · refine ⟨cs, List.prefix_refl cs, hlast.trans ?_⟩
    rw [scan_snd, Cursor.start_past]
  · rw [hspan]
    exact exists_prefix_of_mem_scan hx

/-- **A text that has no tokens is wrong at one of its positions.** -/
theorem exists_prefix_of_error {err : SyntaxError} (h : ofSource cs = .error err) :
    err.cause.Plain ∧ ∃ u, u <+: cs ∧ err.span = Span.behind u := by
  obtain ⟨hplain, x, hx, hspan⟩ := Layout.span_of_run_error h
  rw [hspan]
  exact ⟨hplain, exists_prefix_of_mem_scan hx⟩

/-! ## Format strings -/

/-- The body of a literal is on one line. -/
theorem newline_not_mem_literalBody (q : Char) (cs : List Char) :
    '\n' ∉ (literalBody q cs).1 := by
  fun_induction literalBody q cs with
  | case1 | case2 | case3 | case5 | case6 => exact List.not_mem_nil
  | case4 c cs hc body closed hbody ih =>
    rw [hbody] at ih
    simp [ih, Ne.symm hc]
  | case7 c cs _ _ hc hq body closed hbody ih =>
    rw [hbody] at ih
    simp [ih, Ne.symm hc]

/-- What is cut off a text as a format string. -/
theorem exists_of_munch_format {c : Char} {cs : List Char} {raw : String} {n : Nat}
    (h : munch c cs = (.token (.format raw), n)) : c = 'f' ∧ ∃ q rest,
      (q = '"' ∨ q = '\'') ∧ cs = q :: (raw.toList ++ q :: rest) ∧ '\n' ∉ raw.toList := by
  have hspells : Spells (c :: cs.take n) (.token (.format raw)) :=
    (cut_munch h fun slice hslice => by cases hslice).spells
  generalize hfront : c :: cs.take n = front at hspells
  cases hspells with
  | @format q hq body =>
    obtain ⟨rfl, htake⟩ := List.cons.inj hfront
    have hcs : cs = q :: (body ++ q :: cs.drop n) := by
      conv_lhs => rw [← List.take_append_drop n cs, htake]
      simp
    rw [hcs] at h
    have hformat : munch 'f' (q :: (body ++ q :: cs.drop n)) =
        munchFormat q (body ++ q :: cs.drop n) := by
      rcases hq with rfl | rfl <;> rfl
    have hbody : (literalBody q (body ++ q :: cs.drop n)).1 = body := by
      rw [hformat, munchFormat] at h
      dsimp only at h
      split at h
      · obtain ⟨htoken, -⟩ := Prod.mk.inj h
        exact String.ofList_injective (Token.format.inj (Lexeme.token.inj htoken))
      · cases h
    refine ⟨rfl, q, cs.drop n, hq, ?_, ?_⟩
    · rw [String.toList_ofList]
      exact hcs
    · rw [String.toList_ofList, ← hbody]
      exact newline_not_mem_literalBody q _

/-- **A format string stands in the text**, between its quotes and on one line. -/
theorem exists_format_of_mem (h : ofSource cs = .ok ts) {raw : String} {s : Span}
    (ht : (⟨.format raw, s⟩ : Located) ∈ ts) : ∃ u q rest, s = Span.behind u ∧
      (q = '"' ∨ q = '\'') ∧ cs = u ++ 'f' :: q :: (raw.toList ++ q :: rest) ∧
        '\n' ∉ raw.toList := by
  obtain ⟨u, c, rest, n, hcs, hmunch, hspan⟩ := (laidOut_of_ofSource h).located _ ht rfl
  obtain ⟨rfl, q, rest, hq, rfl, hline⟩ := exists_of_munch_format hmunch
  exact ⟨u, q, rest, hspan, hq, hcs, hline⟩

end Token

end ReactiveScript

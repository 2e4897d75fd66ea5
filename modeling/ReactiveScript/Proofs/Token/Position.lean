import Mathlib.Data.List.Basic
import ReactiveScript.Proofs.Checked
import ReactiveScript.Token.Layout

/-!
# Positions of tokens

The tokens that come from the text of a script stand at different positions, in the order of the
text.  The tokens that layout adds share theirs with others.

* `Span.Before` — the order of positions.
* `Token.sorted_positions` — the tokens of a script that come from its text, in the order of their
  positions.
-/

set_option autoImplicit false

namespace ReactiveScript

namespace Span

/-- One position comes before another. -/
def Before (s t : Span) : Prop := s.line < t.line ∨ s.line = t.line ∧ s.col < t.col

theorem Before.trans {s t u : Span} (h : s.Before t) (h' : t.Before u) : s.Before u := by
  unfold Before at *
  omega

theorem Before.ne {s t : Span} (h : s.Before t) : s ≠ t := by
  rintro rfl
  unfold Before at h
  omega

end Span

namespace Token

/-! ## The scan -/

namespace Cursor

theorem before_next (p : Cursor) (c : Char) : p.span.Before (p.next c).span := by
  rw [next]
  split
  · exact Or.inl (Nat.lt_succ_self _)
  · exact Or.inr ⟨rfl, Nat.lt_succ_self _⟩

theorem before_past (p : Cursor) (c : Char) (cs : List Char) :
    p.span.Before (p.past (c :: cs)).span := by
  induction cs generalizing p c with
  | nil => exact p.before_next c
  | cons d cs ih => exact (p.before_next c).trans (ih (p.next c) d)

end Cursor

/-- Lexemes are found one after another. -/
theorem sorted_scan (p : Cursor) (cs : List Char) :
    ((scan p cs).1.map Scanned.span).Pairwise Span.Before ∧
      ∀ x ∈ (scan p cs).1, x.span = p.span ∨ p.span.Before x.span := by
  fun_induction scan p cs with
  | case1 p => exact ⟨List.Pairwise.nil, List.forall_mem_nil _⟩
  | case2 p c cs hgap ih =>
    refine ⟨ih.1, fun x hx => Or.inr ?_⟩
    rcases ih.2 x hx with heq | hbefore
    · exact heq ▸ p.before_next c
    · exact (p.before_next c).trans hbefore
  | case3 p c cs hgap lexeme n hmunch rest last hscan ih =>
    rw [hscan] at ih
    have hpast : ∀ x ∈ rest, p.span.Before x.span := by
      intro x hx
      rcases ih.2 x hx with heq | hbefore
      · exact heq ▸ p.before_past c (cs.take n)
      · exact (p.before_past c (cs.take n)).trans hbefore
    refine ⟨?_, ?_⟩
    · rw [List.map_cons, List.pairwise_cons]
      refine ⟨fun s hs => ?_, ih.1⟩
      obtain ⟨x, hx, rfl⟩ := List.mem_map.1 hs
      exact hpast x hx
    · exact List.forall_mem_cons.2 ⟨Or.inl rfl, fun x hx => Or.inr (hpast x hx)⟩

/-! ## Layout -/

/-- Whether a token is one that layout adds. -/
def isLayout : Token → Bool
  | .newline | .indent | .dedent | .finish => true
  | _ => false

/-- Where the tokens stand that come from the text. -/
def positions (ts : List Located) : List Span :=
  (ts.filter fun t => !t.token.isLayout).map Located.span

theorem positions_append (ts ts' : List Located) :
    positions (ts ++ ts') = positions ts ++ positions ts' := by
  rw [positions, List.filter_append, List.map_append]
  rfl

theorem positions_eq_nil {ts : List Located} (h : ∀ t ∈ ts, t.token.isLayout = true) :
    positions ts = [] := by
  rw [positions, List.filter_eq_nil_iff.2 fun t ht => by rw [h t ht]; exact Bool.false_ne_true]
  rfl

/-- What stands behind some tokens stands where it stood. -/
theorem positions_sublist {ts rest : List Located} (h : rest <:+ ts) :
    (positions rest).Sublist (positions ts) :=
  (h.sublist.filter _).map _

namespace Layout

theorem isLayout_of_mem_dedents {width : Nat} {span : Span} {levels : List Nat} {t : Located}
    (h : t ∈ (dedents width span levels).1) : t.token.isLayout = true := by
  induction levels with
  | nil => cases h
  | cons top rest ih =>
    rw [dedents] at h
    split at h
    · rcases List.mem_cons.1 h with rfl | h
      · rfl
      · exact ih h
    · cases h

theorem positions_enter {s s' : Layout} {width : Nat} {span : Span} {ts : List Located}
    (h : s.enter width span = .ok (ts, s')) : positions ts = [] := by
  rw [enter] at h
  split at h
  · cases h
    rfl
  · split at h
    · rename_i hdedents
      cases h
      have hmem : ∀ t ∈ ts, t ∈ (dedents width span s.levels).1 := fun t ht => by rwa [hdedents]
      exact positions_eq_nil fun t ht => isLayout_of_mem_dedents (hmem t ht)
    · cases h

/-- A lexeme contributes one token of the text at most, at its own position. -/
theorem positions_step {s s' : Layout} {x : Scanned} {ts : List Located}
    (h : s.step x = .ok (ts, s')) : (positions ts).Sublist [x.span] := by
  rw [step] at h
  split at h
  · cases h
  · cases h
    exact List.nil_sublist _
  · split at h
    · cases h
      split
      · exact List.nil_sublist _
      · exact List.nil_sublist _
    · cases h
      exact List.nil_sublist _
  · rename_i t _
    have hself : (positions [⟨t, x.span⟩]).Sublist [x.span] :=
      (List.filter_sublist (l := [(⟨t, x.span⟩ : Located)])).map Located.span
    dsimp only at h
    split at h
    · obtain ⟨⟨before, s₁⟩, hbefore, h⟩ := exists_of_bind h
      cases h
      rwa [positions_append, positions_enter hbefore, List.nil_append]
    · cases h
      exact hself

theorem positions_close (s : Layout) (last : Span) : positions (s.close last) = [] := by
  refine positions_eq_nil fun t ht => ?_
  rw [close, List.mem_append, List.mem_append, List.mem_map, List.mem_singleton] at ht
  rcases ht with (ht | ⟨_, -, rfl⟩) | rfl
  · split at ht
    · cases ht
    · rw [List.mem_singleton.1 ht]
      rfl
  · rfl
  · rfl

/-- Layout keeps the tokens of the text in their order. -/
theorem positions_run {last : Span} {s : Layout} {xs : List Scanned} {ts : List Located}
    (h : run last s xs = .ok ts) : (positions ts).Sublist (xs.map Scanned.span) := by
  induction xs generalizing s ts with
  | nil =>
    cases h
    rw [positions_close]
    exact List.nil_sublist _
  | cons x xs ih =>
    rw [run] at h
    obtain ⟨⟨tokens, s₁⟩, hstep, h⟩ := exists_of_bind h
    obtain ⟨rest, hrest, h⟩ := exists_of_bind h
    cases h
    rw [positions_append]
    exact (positions_step hstep).append (ih hrest)

end Layout

/-- **The tokens of a script that come from its text stand in the order of their positions.** -/
theorem sorted_positions {cs : List Char} {ts : List Located} (h : ofSource cs = .ok ts) :
    (positions ts).Pairwise Span.Before :=
  List.Pairwise.sublist (Layout.positions_run h) (sorted_scan .start cs).1

end Token

end ReactiveScript

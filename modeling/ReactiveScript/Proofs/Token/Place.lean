import Mathlib.Data.List.Basic
import ReactiveScript.Proofs.Token.Line

/-!
# Where lexemes are found

The scanner counts lines and columns as it goes.  What it counts is where in the text a lexeme
stands: the number of line ends in front of it, and the number of characters since the last of them.

* `Span.behind` — where the character behind a text stands.
* `Span.within_behind` — positions in a text that starts behind another one.
* `Token.indentation` — how wide the last line of a text is.
* `Token.FoundBehind` — a lexeme is found behind a part of a text.
* `Token.exists_foundBehind` — every lexeme of a scan is found where it says.
-/

set_option autoImplicit false

namespace ReactiveScript

/-- The last line of a text, backwards. -/
def lastLine (cs : List Char) : List Char := cs.reverse.takeWhile (· ≠ '\n')

theorem lastLine_newline (cs : List Char) : lastLine (cs ++ ['\n']) = [] := by
  rw [lastLine, List.reverse_append]
  rfl

theorem lastLine_concat {c : Char} (hc : c ≠ '\n') (cs : List Char) :
    lastLine (cs ++ [c]) = c :: lastLine cs := by
  rw [lastLine, List.reverse_append, List.reverse_singleton, List.singleton_append,
    List.takeWhile_cons_of_pos (by simpa using hc), lastLine]

/-- Where the character behind a text stands: behind its line ends, and in the last line behind the
characters that the text has there. -/
def Span.behind (cs : List Char) : Span := ⟨cs.count '\n' + 1, (lastLine cs).length + 1⟩

theorem Span.line_behind {cs : List Char} (h : '\n' ∉ cs) : (Span.behind cs).line = 1 := by
  rw [Span.behind, List.count_eq_zero_of_not_mem h]

theorem lastLine_append_of_mem {us : List Char} (h : '\n' ∈ us) (cs : List Char) :
    lastLine (cs ++ us) = lastLine us := by
  induction us using List.reverseRecOn with
  | nil => cases h
  | append_singleton us c ih =>
    rw [← List.append_assoc]
    by_cases hc : c = '\n'
    · subst hc
      rw [lastLine_newline, lastLine_newline]
    · have hus : '\n' ∈ us := by
        simpa [Ne.symm hc] using h
      rw [lastLine_concat hc, lastLine_concat hc, ih hus]

theorem length_lastLine_append {us : List Char} (h : '\n' ∉ us) (cs : List Char) :
    (lastLine (cs ++ us)).length = (lastLine cs).length + us.length := by
  induction us using List.reverseRecOn with
  | nil => rw [List.append_nil, List.length_nil, Nat.add_zero]
  | append_singleton us c ih =>
    have hus : '\n' ∉ us := fun hmem => h (List.mem_append_left _ hmem)
    have hc : c ≠ '\n' := fun heq => h (heq ▸ List.mem_append_right us (List.mem_singleton_self c))
    rw [← List.append_assoc, lastLine_concat hc, List.length_cons, ih hus, List.length_append]
    rfl

/-- In a line, positions count its characters. -/
theorem Span.behind_append {us : List Char} (h : '\n' ∉ us) (cs : List Char) :
    Span.behind (cs ++ us) = ⟨(Span.behind cs).line, (Span.behind cs).col + us.length⟩ := by
  rw [Span.behind, Span.behind, List.count_append, List.count_eq_zero_of_not_mem h,
    length_lastLine_append h cs, Nat.add_right_comm _ us.length]

/-- **Positions in a text that starts behind another one** are those behind both. -/
theorem Span.within_behind (cs us : List Char) :
    (Span.behind cs).within (Span.behind us) = Span.behind (cs ++ us) := by
  rw [Span.within]
  by_cases h : '\n' ∈ us
  · have hline : (Span.behind us).line ≠ 1 := by
      have := List.count_pos_iff.2 h
      rw [Span.behind]
      dsimp only
      omega
    rw [if_neg hline, Span.behind, Span.behind, Span.behind, lastLine_append_of_mem h,
      List.count_append]
    exact Span.mk.injEq _ _ _ _ ▸ ⟨by dsimp only; omega, rfl⟩
  · have hus : Span.behind us = ⟨1, 1 + us.length⟩ := Span.behind_append h []
    rw [if_pos (Span.line_behind h), Span.behind_append h, hus]
    exact congrArg (Span.mk _) (by dsimp only; omega)

namespace Token

/-- How wide the last line of a text is, a tab counting as four. -/
def indentation (cs : List Char) : Nat :=
  ((lastLine cs).map fun c => if c = '\t' then 4 else 1).sum

/-- A scan that has come past a text is behind it. -/
theorem Cursor.start_past (cs : List Char) :
    Cursor.start.past cs = ⟨Span.behind cs, indentation cs⟩ := by
  induction cs using List.reverseRecOn with
  | nil => rfl
  | append_singleton cs c ih =>
    have hnext : Cursor.start.past (cs ++ [c]) =
        Cursor.next ⟨Span.behind cs, indentation cs⟩ c := by
      rw [Cursor.past_append, ih]
      rfl
    rw [hnext, Cursor.next, Span.behind, indentation, Span.behind, indentation, List.count_append]
    by_cases hc : c = '\n'
    · subst hc
      rw [lastLine_newline]
      rfl
    · have hcount : [c].count '\n' = 0 := List.count_eq_zero_of_not_mem (by simpa using Ne.symm hc)
      rw [if_neg hc, lastLine_concat hc, hcount, List.map_cons, List.sum_cons,
        Nat.add_comm (ite _ _ _)]
      rfl

/-- A lexeme is found in a text behind a part of it: it is cut off what comes there, and it is
recorded with the position and the width of the line there. -/
structure FoundBehind (cs before : List Char) (x : Scanned) : Prop where
  /-- It is cut off what comes behind the part. -/
  munch_eq : ∃ c rest n, cs = before ++ c :: rest ∧ munch c rest = (x.lexeme, n)
  /-- It stands behind the part. -/
  span_eq : x.span = Span.behind before
  /-- The width of its line is that of the last line of the part. -/
  width_eq : x.width = indentation before

theorem foundBehind_scan {p : Cursor} {before cs : List Char} (hp : p = Cursor.start.past before) :
    ∀ x ∈ (scan p cs).1, ∃ before', FoundBehind (before ++ cs) before' x := by
  fun_induction scan p cs generalizing before with
  | case1 p => exact List.forall_mem_nil _
  | case2 p c cs hgap ih =>
    have hnext : p.next c = Cursor.start.past (before ++ [c]) := by
      rw [Cursor.past_append, hp]
      rfl
    rw [List.append_cons]
    exact ih hnext
  | case3 p c cs hgap lexeme n hmunch rest last hscan ih =>
    rw [hscan] at ih
    have hpast : p.past (c :: cs.take n) = Cursor.start.past (before ++ c :: cs.take n) := by
      rw [Cursor.past_append, hp]
    have hsplit : before ++ c :: cs = before ++ c :: cs.take n ++ cs.drop n := by
      rw [List.append_assoc, List.cons_append, List.take_append_drop]
    refine List.forall_mem_cons.2 ⟨⟨before, ⟨c, cs, n, rfl, hmunch⟩, ?_, ?_⟩, ?_⟩
    · rw [hp, Cursor.start_past]
    · rw [hp, Cursor.start_past]
    · rw [hsplit]
      exact ih hpast

/-- **Every lexeme is found where it says.** -/
theorem exists_foundBehind {cs : List Char} {x : Scanned} (h : x ∈ (scan .start cs).1) :
    ∃ before, FoundBehind cs before x :=
  have hstart : Cursor.start = Cursor.start.past [] := rfl
  foundBehind_scan hstart x h

/-- A scan ends behind its text. -/
theorem scan_snd (p : Cursor) (cs : List Char) : (scan p cs).2 = p.past cs := by
  fun_induction scan p cs with
  | case1 p => rfl
  | case2 p c cs hgap ih => exact ih
  | case3 p c cs hgap lexeme n hmunch rest last hscan ih =>
    rw [hscan, ← Cursor.past_append, List.cons_append, List.take_append_drop] at ih
    exact ih

end Token

end ReactiveScript

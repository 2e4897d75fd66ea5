/-!
# Copies of a text

`Text.copies s n` is `s`, `n` times over.  It is put together from two halves, so that a long text
of many copies takes few steps; `toList_copies` says that its characters are those of the copies in
a row.
-/

set_option autoImplicit false

namespace ReactiveScript

namespace Text

/-- A text so many times over. -/
def copies (s : String) (n : Nat) : String :=
  if n = 0 then "" else
    let half := copies s (n / 2)
    if n % 2 = 0 then half ++ half else half ++ half ++ s
termination_by n
decreasing_by omega

theorem toList_copies (s : String) (n : Nat) :
    (copies s n).toList = (List.replicate n s.toList).flatten := by
  fun_induction copies s n with
  | case1 => simp
  | case2 n _ half even ih =>
    have hn : n = n / 2 + n / 2 := by omega
    rw [hn, ← List.replicate_append_replicate, List.flatten_append]
    simp [half, ih]
  | case3 n _ half odd ih =>
    have hn : n = n / 2 + n / 2 + 1 := by omega
    rw [hn, List.replicate_succ', ← List.replicate_append_replicate, List.flatten_append,
      List.flatten_append]
    simp [half, ih]

end Text

end ReactiveScript

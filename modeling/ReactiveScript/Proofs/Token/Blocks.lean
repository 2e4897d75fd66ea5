import ReactiveScript.Proofs.Token.Layout
import ReactiveScript.Proofs.Token.Writing

/-!
# Written lines

How lines are written so that layout finds their blocks again.  Every block is indented by four
blanks more than the one around it, and a line leaves no bracket open.  The blocks that end behind
a line are closed in front of the next one, so that what a text is laid out as depends on how many
blocks are open in front of it.

* `Token.Neutral` — tokens close the brackets that they open.
* `Token.Layout.widths` — the widths of blocks that are indented by four blanks each.
* `Token.Lays` — what a text is laid out as, some blocks being open in front of it.
* `Token.Begins`, `Token.Follows` — the same for a text that begins in blocks of a certain depth,
  and for one that follows upon lines in such blocks.
* `Token.begins_line` — how a line is laid out.
-/

set_option autoImplicit false

namespace ReactiveScript

namespace Token

/-! ## Brackets -/

/-- How many brackets are open behind some tokens if `d` are open in front of them. -/
def depthBehind (d : Nat) (ts : List Token) : Nat := ts.foldl nesting d

/-- Tokens close the brackets that they open, and no others. -/
def Neutral (ts : List Token) : Prop := ∀ d, depthBehind d ts = d

namespace Neutral

variable {ts ts' : List Token}

theorem nil : Neutral [] := fun _ => rfl

theorem append (h : Neutral ts) (h' : Neutral ts') : Neutral (ts ++ ts') := by
  intro d
  rw [depthBehind, List.foldl_append]
  exact (h' _).trans (h d)

/-- A token that is no bracket. -/
theorem cons {t : Token} (ht : ∀ d, nesting d t = d) (h : Neutral ts) : Neutral (t :: ts) := by
  intro d
  rw [depthBehind, List.foldl_cons, ht]
  exact h d

/-- Tokens in brackets. -/
theorem bracket {o c : Mark} (ho : o.isOpening = true)
    (hc : c.isOpening = false ∧ c.isClosing = true)
    (h : Neutral ts) (h' : Neutral ts') : Neutral (.mark o :: (ts ++ .mark c :: ts')) := by
  intro d
  have hopen : nesting d (.mark o) = d + 1 := if_pos ho
  have hclose : nesting (d + 1) (.mark c) = d := by
    rw [nesting, hc.1, hc.2]
    rfl
  rw [depthBehind, List.foldl_cons, List.foldl_append, List.foldl_cons, hopen]
  have hinner : ts.foldl nesting (d + 1) = d + 1 := h (d + 1)
  rw [hinner, hclose]
  exact h' d

end Neutral

/-! ## Levels -/

namespace Layout

/-- The widths of blocks that are indented by four blanks each, innermost first. -/
def widths : Nat → List Nat
  | 0 => []
  | k + 1 => 4 * (k + 1) :: widths k

theorem length_widths (k : Nat) : (widths k).length = k := by
  induction k with
  | zero => rfl
  | succ k ih => exact congrArg (· + 1) ih

theorem headD_widths (k : Nat) : (widths k).headD 0 = 4 * k := by cases k <;> rfl

/-- The blocks that a line closes, and those that remain. -/
theorem remaining_widths {d k : Nat} (h : d ≤ k) :
    remaining (4 * d) (widths k) = widths d ∧ (wider (4 * d) (widths k)).length = k - d := by
  induction k with
  | zero =>
    obtain rfl : d = 0 := by omega
    exact ⟨rfl, rfl⟩
  | succ k ih =>
    rcases Nat.lt_or_ge k d with hlt | hle
    · obtain rfl : d = k + 1 := by omega
      rw [widths, remaining_of_le (Nat.le_refl _), wider_of_le (Nat.le_refl _)]
      exact ⟨rfl, by simp⟩
    · obtain ⟨hremaining, hwider⟩ := ih hle
      have hlt : 4 * d < 4 * (k + 1) := by omega
      rw [widths, remaining_of_lt hlt, wider_of_lt hlt, hremaining, List.length_cons, hwider]
      exact ⟨rfl, by omega⟩

/-- The blocks that a line in `d` blocks opens or closes if `k` are open in front of it. -/
def change (k d : Nat) : List Token :=
  if k < d then [.indent] else List.replicate (k - d) .dedent

/-- A line opens one block or closes some. -/
theorem exists_enter {k d : Nat} (h : d ≤ k + 1) (span : Span) : ∃ before,
    enter ⟨widths k, 0, true⟩ (4 * d) span = .ok (before, ⟨widths d, 0, false⟩) ∧
      before.map Located.token = change k d := by
  rcases Nat.lt_or_ge k d with hlt | hle
  · obtain rfl : d = k + 1 := by omega
    have hlevel : level ⟨widths k, 0, true⟩ < 4 * (k + 1) := by
      rw [level, headD_widths]
      omega
    exact ⟨_, enter_of_lt hlevel span, (if_pos hlt).symm⟩
  · obtain ⟨hremaining, hwider⟩ := remaining_widths hle
    have hlevel : 4 * d ≤ level ⟨widths k, 0, true⟩ := by
      rw [level, headD_widths]
      omega
    have henter := enter_of_eq (s := ⟨widths k, 0, true⟩) hlevel
      (by rw [hremaining, headD_widths]) span
    rw [hremaining, hwider] at henter
    refine ⟨_, henter, ?_⟩
    rw [List.map_replicate, change, if_neg (Nat.not_lt.2 hle)]

/-! ## Runs -/

variable {last : Span} {xs ys : List Scanned} {ts : List Token} {us : List Located}

/-- Tokens inside a line follow one another. -/
theorem run_tokens {lv : List Nat} {d : Nat} (hxs : xs.map Scanned.lexeme = ts.map Lexeme.token)
    (h : run last ⟨lv, depthBehind d ts, false⟩ ys = .ok us) :
    run last ⟨lv, d, false⟩ (xs ++ ys) = .ok (ofLine xs ++ us) := by
  induction xs generalizing ts d with
  | nil =>
    obtain rfl := List.map_eq_nil_iff.1 hxs.symm
    exact h
  | cons x xs ih =>
    obtain ⟨t, ts, rfl, hx, hxs⟩ := List.map_eq_cons_iff.1 hxs.symm
    rw [ofLine_token hx.symm]
    exact bind_eq_ok (step_of_inside hx.symm rfl) (bind_eq_ok (ih hxs.symm h) rfl)

/-- A line that leaves no bracket open, and what comes behind it. -/
theorem run_line {k d : Nat} (hd : d ≤ k + 1) {x y : Scanned} (hwidth : x.width = 4 * d)
    (hxs : (x :: xs).map Scanned.lexeme = ts.map Lexeme.token) (hts : Neutral ts)
    (hy : y.lexeme = .line) (h : run last ⟨widths d, 0, true⟩ ys = .ok us) :
    ∃ before, run last ⟨widths k, 0, true⟩ (x :: xs ++ y :: ys) =
        .ok (before ++ (ofLine (x :: xs) ++ ⟨.newline, y.span⟩ :: us)) ∧
      before.map Located.token = change k d := by
  obtain ⟨t, ts, rfl, hx, hrest⟩ := List.map_eq_cons_iff.1 hxs.symm
  obtain ⟨before, henter, hbefore⟩ := exists_enter hd x.span
  refine ⟨before, ?_, hbefore⟩
  have hstep : step ⟨widths k, 0, true⟩ x =
      .ok (before ++ [⟨t, x.span⟩], ⟨widths d, t.nesting 0, false⟩) := by
    rw [step_of_atStart hx.symm rfl, hwidth, henter]
    rfl
  have hline : step ⟨widths d, 0, false⟩ y = .ok ([⟨.newline, y.span⟩], ⟨widths d, 0, true⟩) := by
    rw [step, hy]
    rfl
  have hend : run last ⟨widths d, depthBehind (nesting 0 t) ts, false⟩ (y :: ys) =
      .ok (⟨.newline, y.span⟩ :: us) := by
    have hclosed : depthBehind (nesting 0 t) ts = 0 := hts 0
    rw [hclosed]
    exact bind_eq_ok hline (bind_eq_ok h rfl)
  rw [ofLine_token hx.symm]
  refine bind_eq_ok hstep (bind_eq_ok (run_tokens hrest.symm hend) ?_)
  simp

end Layout

open Layout

/-! ## Texts that are laid out -/

/-- What the rest of a text is laid out as from the start of a line, if `k` blocks are open in front
of it. -/
def Lays (k : Nat) (w : List Char) (ts : List Token) : Prop :=
  ∀ (p : Cursor) (last : Span), p.width = 0 →
    ∃ us, run last ⟨widths k, 0, true⟩ (scan p w).1 = .ok us ∧ us.map Located.token = ts

/-- A text begins with a line in `d` blocks, one of which it may open. -/
def Begins (d : Nat) (w : List Char) (ts : List Token) : Prop :=
  ∀ k, d ≤ k + 1 → Lays k w (change k d ++ ts)

/-- A text follows upon lines in `d` blocks or more, the innermost of which it closes. -/
def Follows (d : Nat) (w : List Char) (ts : List Token) : Prop :=
  ∀ k, d ≤ k → Lays k w (List.replicate (k - d) .dedent ++ ts)

variable {d : Nat} {w more : List Char} {ts ts' : List Token}

theorem Begins.follows (h : Begins d w ts) : Follows d w ts := by
  intro k hk
  have hlays := h k (by omega)
  rwa [change, if_neg (Nat.not_lt.2 hk)] at hlays

/-- A text that follows upon a block closes it. -/
theorem Follows.dedent (h : Follows d w ts) : Follows (d + 1) w (.dedent :: ts) := by
  intro k hk
  have hlays := h k (by omega)
  obtain ⟨n, rfl⟩ : ∃ n, k = n + (d + 1) := ⟨k - (d + 1), by omega⟩
  have hcount : n + (d + 1) - d = n + 1 := by omega
  rw [hcount, List.replicate_succ'] at hlays
  rw [Nat.add_sub_cancel]
  simpa using hlays

/-- A text that opens a block. -/
theorem Begins.indent (h : Begins (d + 1) w ts) : Lays d w (.indent :: ts) := by
  have hlays := h d (Nat.le_refl _)
  rwa [change, if_pos (Nat.lt_succ_self d)] at hlays

theorem Follows.lays (h : Follows d w ts) : Lays d w ts := by
  have hlays := h d (Nat.le_refl d)
  rwa [Nat.sub_self] at hlays

/-- Behind the last line all blocks are closed. -/
theorem follows_nil : Follows 0 [] [.finish] := by
  intro k _ p last _
  rw [scan]
  refine ⟨_, rfl, ?_⟩
  rw [close, if_pos rfl, List.nil_append, List.map_append, List.map_map, Nat.sub_zero]
  congr 1
  rw [List.eq_replicate_iff]
  exact ⟨by rw [List.length_map, length_widths], by simp⟩

/-- A line that can be scanned: it does not start with a gap, and leaves no bracket open. -/
structure IsLine (w : List Char) (ts : List Token) : Prop where
  /-- It is scanned as some tokens. -/
  writes : Writes w ts
  /-- There is a token on it. -/
  ne_nil : ts ≠ []
  /-- It does not start with a gap. -/
  first : ∃ c cs, w = c :: cs ∧ isGap c = false
  /-- It leaves no bracket open. -/
  neutral : Neutral ts

theorem exists_scan_blanks (n : Nat) (p : Cursor) (w : List Char) :
    ∃ q, scan p (List.replicate n ' ' ++ w) = scan q w ∧ q.width = p.width + n := by
  induction n generalizing p with
  | zero => exact ⟨p, rfl, rfl⟩
  | succ n ih =>
    obtain ⟨q, hscan, hwidth⟩ := ih (p.next ' ')
    have hnext : (p.next ' ').width = p.width + 1 := rfl
    refine ⟨q, ?_, by omega⟩
    rw [List.replicate_succ, List.cons_append, scan_gap rfl, hscan]

theorem scan_newline (p : Cursor) (w : List Char) :
    scan p ('\n' :: w) = (⟨.line, p.span, p.width⟩ :: (scan (p.next '\n') w).1,
      (scan (p.next '\n') w).2) :=
  scan_lexeme (by decide) p rfl

/-- **A line in `d` blocks**, and what comes behind it. -/
theorem begins_line (h : IsLine w ts) (hmore : Lays d more ts') :
    Begins d (List.replicate (4 * d) ' ' ++ (w ++ '\n' :: more)) (ts ++ .newline :: ts') := by
  intro k hk p last hp
  obtain ⟨q, hblanks, hq⟩ := exists_scan_blanks (4 * d) p (w ++ '\n' :: more)
  have hrest : Apart ('\n' :: more) := ⟨rfl, by decide, by decide⟩
  obtain ⟨xs, hxs, hscan⟩ := h.writes hrest q
  obtain ⟨c, cs, rfl, hc⟩ := h.first
  obtain ⟨⟨l, n⟩, hmunch⟩ : ∃ r, munch c (cs ++ '\n' :: more) = r := ⟨_, rfl⟩
  have hhead := scan_lexeme (by simp [hc]) q hmunch
  rw [List.cons_append, scan_newline] at hscan
  rw [hscan] at hhead
  obtain ⟨us, hrun, hus⟩ := hmore ((q.past (c :: cs)).next '\n') last rfl
  obtain ⟨x, xs, rfl⟩ : ∃ x xs', xs = x :: xs' := by
    refine List.exists_cons_of_ne_nil fun hnil => h.ne_nil ?_
    rw [hnil] at hxs
    exact List.map_eq_nil_iff.1 hxs.symm
  have hwidth : x.width = 4 * d := by
    have hx := (List.cons.inj (Prod.mk.inj hhead).1).1
    rw [hx, hq, hp, Nat.zero_add]
  obtain ⟨before, hline, hbefore⟩ := run_line (y := ⟨.line, _, _⟩) hk hwidth hxs h.neutral rfl hrun
  rw [hblanks, List.cons_append, hscan]
  refine ⟨_, hline, ?_⟩
  rw [List.map_append, List.map_append, List.map_cons, hbefore, map_token_ofLine hxs, hus]

end Token

end ReactiveScript

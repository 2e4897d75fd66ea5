import ReactiveScript.Proofs.Token.Layout

/-!
# The stream of tokens

Layout adds tokens to those of the text.  Which ones it may add where is a matter of the token in
front of them and of the brackets and blocks that are open there.

* `Token.Linked` — every token may come behind the one in front of it.
* `Token.blocksBehind` — how many blocks are open behind some tokens.
* `Token.Outside` — outside brackets only do layout tokens stand.
* `Token.Layout.Contributes` — what some lexemes contribute fits what is there.
* `Token.LaidOut` — the tokens of a text, its lines and its blocks.
-/

set_option autoImplicit false

namespace ReactiveScript

namespace Token

/-! ## Blocks -/

/-- How many blocks are open behind a token if `n` are open in front of it; nothing if it closes one
that is not open. -/
def blocks (n : Nat) : Token → Option Nat
  | .indent => some (n + 1)
  | .dedent => if n = 0 then none else some (n - 1)
  | _ => some n

/-- How many blocks are open behind some tokens if `n` are open in front of them. -/
def blocksBehind (n : Nat) (ts : List Located) : Option Nat :=
  ts.foldlM (fun n t => t.token.blocks n) n

theorem blocksBehind_append (n : Nat) (ts us : List Located) :
    blocksBehind n (ts ++ us) = (blocksBehind n ts).bind (blocksBehind · us) := List.foldlM_append

/-- How often a token stands among others. -/
def occurrences (t : Token) (ts : List Located) : Nat := ts.countP (·.token = t)

theorem occurrences_cons (t : Token) (u : Located) (ts : List Located) :
    occurrences t (u :: ts) = occurrences t ts + if u.token = t then 1 else 0 := by
  rw [occurrences, List.countP_cons, ← occurrences]
  simp only [decide_eq_true_eq]

/-- Blocks are counted by the tokens that open and close them. -/
theorem occurrences_of_blocksBehind {n m : Nat} {ts : List Located}
    (h : blocksBehind n ts = some m) :
    occurrences .dedent ts + m = occurrences .indent ts + n := by
  induction ts generalizing n with
  | nil =>
    cases h
    rfl
  | cons t ts ih =>
    obtain ⟨k, hk, hrest⟩ := Option.bind_eq_some_iff.1 ((List.foldlM_cons ..).symm.trans h)
    have hrest := ih hrest
    rw [occurrences_cons, occurrences_cons]
    cases ht : t.token <;> rw [ht] at hk <;>
      simp only [blocks, Option.some.injEq, Option.ite_none_left_eq_some] at hk <;>
      simp only [reduceCtorEq, if_true, if_false] <;> omega

/-- Dedents close as many blocks as there are of them. -/
theorem blocksBehind_replicate (n k : Nat) (span : Span) :
    blocksBehind (n + k) (List.replicate k ⟨.dedent, span⟩) = some n := by
  induction k with
  | zero => rfl
  | succ k ih =>
    rw [List.replicate_succ, blocksBehind, List.foldlM_cons]
    exact ih

/-! ## What comes behind what -/

/-- Whether a token may come behind another one, or behind none. -/
def MayFollow (before : Option Token) : Token → Prop
  | .newline => ∃ t, before = some t ∧ t.isLayout = false
  | .indent => before = none ∨ before = some .newline
  | .dedent => before = some .newline ∨ before = some .dedent
  | .finish => before = none ∨ before = some .newline ∨ before = some .dedent
  | _ => True

/-- Every token may come behind the one in front of it, the first one behind `before`. -/
def Linked : Option Token → List Located → Prop
  | _, [] => True
  | before, t :: ts => MayFollow before t.token ∧ Linked (some t.token) ts

/-- The last of some tokens, or `before` if there are none. -/
def lastOf (before : Option Token) (ts : List Located) : Option Token :=
  ts.foldl (fun _ t => some t.token) before

theorem lastOf_concat (before : Option Token) (ts : List Located) (t : Located) :
    lastOf before (ts ++ [t]) = some t.token := List.foldl_append

theorem lastOf_none (ts : List Located) : lastOf none ts = ts.getLast?.map Located.token := by
  rcases List.eq_nil_or_concat ts with rfl | ⟨ts, t, rfl⟩
  · rfl
  · rw [List.concat_eq_append, lastOf_concat, List.getLast?_concat]
    rfl

theorem linked_append {before : Option Token} {ts us : List Located} :
    Linked before (ts ++ us) ↔ Linked before ts ∧ Linked (lastOf before ts) us := by
  induction ts generalizing before with
  | nil => exact (and_iff_right trivial).symm
  | cons t ts ih => exact (and_congr_right fun _ => ih).trans and_assoc.symm

/-- Dedents may come behind the end of a line. -/
theorem linked_replicate (k : Nat) (span : Span) {before : Option Token}
    (h : before = some .newline ∨ before = some .dedent) :
    Linked before (List.replicate k ⟨.dedent, span⟩) ∧
      (lastOf before (List.replicate k ⟨.dedent, span⟩) = some .newline ∨
        lastOf before (List.replicate k ⟨.dedent, span⟩) = some .dedent) := by
  induction k generalizing before with
  | zero => exact ⟨trivial, h⟩
  | succ k ih =>
    obtain ⟨hlinked, hlast⟩ := ih (Or.inr rfl)
    exact ⟨⟨h, hlinked⟩, hlast⟩

theorem mayFollow_of_not_isLayout {before : Option Token} {t : Token} (h : t.isLayout = false) :
    MayFollow before t := by
  cases t <;> first | exact trivial | cases h

/-- Where layout tokens stand, no bracket is open, `d` being open in front. -/
def Outside (d : Nat) (ts : List Located) : Prop :=
  ∀ pre t post, ts = pre ++ t :: post → t.token.isLayout = true → bracketsBehind d pre = 0

theorem outside_nil (d : Nat) : Outside d [] := fun pre _ _ heq => by cases pre <;> cases heq

theorem Outside.append {d : Nat} {ts us : List Located} (h : Outside d ts)
    (h' : Outside (bracketsBehind d ts) us) : Outside d (ts ++ us) := by
  intro pre t post heq ht
  rcases List.append_eq_append_iff.1 heq with ⟨more, rfl, hus⟩ | ⟨more, rfl, hmore⟩
  · rw [bracketsBehind_append]
    exact h' more t post hus ht
  · cases more with
    | nil =>
      rw [List.append_nil] at h'
      exact h' [] t post hmore.symm ht
    | cons t' more =>
      obtain ⟨rfl, -⟩ := List.cons.inj hmore
      exact h pre t more rfl ht

/-- Layout tokens are no brackets. -/
theorem bracketsBehind_of_isLayout {ts : List Located} (h : ∀ t ∈ ts, t.token.isLayout = true)
    (d : Nat) : bracketsBehind d ts = d := by
  induction ts with
  | nil => rfl
  | cons t ts ih =>
    obtain ⟨ht, hts⟩ := List.forall_mem_cons.1 h
    have hnesting : t.token.nesting d = d := by
      cases hkind : t.token <;> first | rfl | (rw [hkind] at ht; cases ht)
    show bracketsBehind (t.token.nesting d) ts = d
    rw [hnesting]
    exact ih hts

/-- There may be layout tokens where no bracket is open. -/
theorem outside_of_isLayout {ts : List Located} (h : ∀ t ∈ ts, t.token.isLayout = true) :
    Outside 0 ts := by
  rintro pre t post rfl -
  exact bracketsBehind_of_isLayout (fun u hu => h u (List.mem_append_left _ hu)) 0

/-- A token of the text may stand anywhere. -/
theorem outside_singleton {t : Located} (ht : t.token.isLayout = false) (d : Nat) :
    Outside d [t] := by
  intro pre u post heq hu
  rcases List.append_eq_singleton_iff.1 heq.symm with ⟨rfl, hsingle⟩ | ⟨-, hsingle⟩
  · obtain ⟨rfl, -⟩ := List.cons.inj hsingle
    rw [ht] at hu
    cases hu
  · cases hsingle

/-- The tokens that come from the text. -/
def textOf (ts : List Located) : List Located := ts.filter fun t => !t.token.isLayout

theorem textOf_append (ts us : List Located) : textOf (ts ++ us) = textOf ts ++ textOf us :=
  List.filter_append ..

theorem textOf_of_isLayout {ts : List Located} (h : ∀ t ∈ ts, t.token.isLayout = true) :
    textOf ts = [] :=
  List.filter_eq_nil_iff.2 fun t ht => by rw [h t ht]; exact Bool.false_ne_true

theorem textOf_singleton {t : Located} (ht : t.token.isLayout = false) : textOf [t] = [t] := by
  rw [textOf, List.filter_cons_of_pos (by rw [ht]; rfl), List.filter_nil]

theorem ofLine_eq_nil {x : Scanned} (h : ∀ t, x.lexeme ≠ .token t) : ofLine [x] = [] := by
  rw [ofLine, List.filterMap_cons_none, List.filterMap_nil]
  rw [Scanned.token?.eq_def]
  split
  · exact absurd ‹_› (h _)
  · rfl

theorem blocks_of_not_isLayout {t : Token} (ht : t.isLayout = false) (n : Nat) :
    t.blocks n = some n := by
  cases t <;> first | rfl | cases ht

theorem ne_finish_of_not_isLayout {t : Token} (ht : t.isLayout = false) : t ≠ .finish := by
  rintro rfl
  cases ht

namespace Layout

/-! ## What lexemes contribute -/

/-- What a layout has just behind it. -/
structure Behind (s : Layout) (before : Option Token) : Prop where
  /-- At the start of a line, the end of another one; or nothing, and then no block is open. -/
  start : s.atStart = true → before = none ∧ s.levels = [] ∨ before = some .newline
  /-- Inside a line, a token of the text. -/
  inside : s.atStart = false → ∃ t, before = some t ∧ t.isLayout = false
  /-- Inside brackets no line starts. -/
  brackets : s.atStart = true → s.depth = 0

theorem behind_start : start.Behind none := ⟨fun _ => Or.inl ⟨rfl, rfl⟩, nofun, fun _ => rfl⟩

/-- What some lexemes contribute fits what is there. -/
structure Contributes (s : Layout) (before : Option Token) (xs : List Scanned) (ts : List Located)
    (s' : Layout) : Prop where
  /-- The layout afterwards. -/
  behind : s'.Behind (lastOf before ts)
  /-- The tokens may come behind one another. -/
  linked : Linked before ts
  /-- Blocks are opened and closed as the levels say. -/
  blocks_eq : blocksBehind s.levels.length ts = some s'.levels.length
  /-- Brackets are counted. -/
  depth_eq : s'.depth = bracketsBehind s.depth ts
  /-- Layout tokens stand outside brackets. -/
  outside : Outside s.depth ts
  /-- The text has no end. -/
  ne_finish : ∀ t ∈ ts, t.token ≠ .finish
  /-- The tokens of the text are those of the lexemes. -/
  textOf_eq : textOf ts = ofLine xs

variable {s s' s'' : Layout} {before : Option Token} {ts us : List Located} {x : Scanned}
  {xs ys : List Scanned} {t : Token}

theorem Contributes.nil (h : s.Behind before) (hxs : ofLine xs = []) :
    s.Contributes before xs [] s :=
  ⟨h, trivial, rfl, rfl, outside_nil _, nofun, hxs.symm⟩

theorem Contributes.append (h : s.Contributes before xs ts s')
    (h' : s'.Contributes (lastOf before ts) ys us s'') :
    s.Contributes before (xs ++ ys) (ts ++ us) s'' where
  behind := by
    rw [lastOf, List.foldl_append]
    exact h'.behind
  linked := linked_append.2 ⟨h.linked, h'.linked⟩
  blocks_eq := by
    rw [blocksBehind_append, h.blocks_eq]
    exact h'.blocks_eq
  depth_eq := by rw [bracketsBehind_append, ← h.depth_eq, h'.depth_eq]
  outside := h.outside.append (h.depth_eq ▸ h'.outside)
  ne_finish := List.forall_mem_append.2 ⟨h.ne_finish, h'.ne_finish⟩
  textOf_eq := by rw [textOf_append, h.textOf_eq, h'.textOf_eq, ofLine, ofLine, ofLine,
    List.filterMap_append]

/-- A token of the text inside a line. -/
theorem contributes_token (hstart : s.atStart = false)
    (hx : x.lexeme = .token t) (ht : t.isLayout = false) :
    s.Contributes before [x] [⟨t, x.span⟩] { s with depth := t.nesting s.depth } where
  behind := ⟨fun h => (by rw [hstart] at h; cases h), fun _ => ⟨t, rfl, ht⟩,
    fun h => (by rw [hstart] at h; cases h)⟩
  linked := ⟨mayFollow_of_not_isLayout ht, trivial⟩
  blocks_eq := (congrArg (Option.bind · some) (blocks_of_not_isLayout ht _)).trans
    (Option.bind_some ..)
  depth_eq := rfl
  outside := outside_singleton ht _
  ne_finish := List.forall_mem_singleton.2 (ne_finish_of_not_isLayout ht)
  textOf_eq := by rw [textOf_singleton ht, ofLine_token hx, ofLine, List.filterMap_nil]

/-- Layout tokens at the start of a line. -/
theorem contributes_marks (hs : s.Behind before) (hstart : s.atStart = true) {levels : List Nat}
    {marks : List Located} (hmarks : ∀ u ∈ marks, u.token = .indent ∨ u.token = .dedent)
    (hlinked : Linked before marks)
    (hblocks : blocksBehind s.levels.length marks = some levels.length)
    (hx : x.lexeme = .token t) (ht : t.isLayout = false) :
    s.Contributes before [x] (marks ++ [⟨t, x.span⟩]) ⟨levels, t.nesting s.depth, false⟩ := by
  have hlayout : ∀ u ∈ marks, u.token.isLayout = true := fun u hu => by
    rcases hmarks u hu with h | h <;> rw [h] <;> rfl
  have hdepth : bracketsBehind s.depth marks = s.depth := bracketsBehind_of_isLayout hlayout _
  refine ⟨⟨nofun, fun _ => ⟨t, lastOf_concat .., ht⟩, nofun⟩,
    linked_append.2 ⟨hlinked, mayFollow_of_not_isLayout ht, trivial⟩, ?_, ?_, ?_,
    List.forall_mem_append.2
      ⟨fun u hu => ?_, List.forall_mem_singleton.2 (ne_finish_of_not_isLayout ht)⟩, ?_⟩
  · rw [blocksBehind_append, hblocks]
    exact (congrArg (Option.bind · some) (blocks_of_not_isLayout ht _)).trans (Option.bind_some ..)
  · rw [bracketsBehind_append, hdepth]
    rfl
  · refine Outside.append ?_ (outside_singleton ht _)
    rw [hs.brackets hstart]
    exact outside_of_isLayout hlayout
  · rcases hmarks u hu with h | h <;> rw [h] <;> exact Token.noConfusion
  · rw [textOf_append, textOf_of_isLayout hlayout, textOf_singleton ht, ofLine_token hx, ofLine,
      List.filterMap_nil, List.nil_append]

/-- What one lexeme contributes fits. -/
theorem Takes.contributes (h : s.Takes x ts s') (hs : s.Behind before)
    (hx : ∀ t, x.lexeme = .token t → t.isLayout = false) : s.Contributes before [x] ts s' := by
  cases h with
  | comment hlex => exact .nil hs (ofLine_eq_nil fun t ht => by rw [hlex] at ht; cases ht)
  | inside hlex hdepth => exact .nil hs (ofLine_eq_nil fun t ht => by rw [hlex] at ht; cases ht)
  | blank hlex hdepth hstart =>
    exact .nil hs (ofLine_eq_nil fun t ht => by rw [hlex] at ht; cases ht)
  | newline hlex hdepth hstart =>
    have hlayout : ∀ u ∈ [(⟨.newline, x.span⟩ : Located)], u.token.isLayout = true :=
      List.forall_mem_singleton.2 rfl
    exact ⟨⟨fun _ => Or.inr rfl, nofun, fun _ => hdepth⟩, ⟨hs.inside hstart, trivial⟩, rfl, rfl,
      hdepth ▸ outside_of_isLayout hlayout, List.forall_mem_singleton.2 Token.noConfusion,
      (ofLine_eq_nil fun t ht => by rw [hlex] at ht; cases ht).symm⟩
  | token t hlex hstart => exact contributes_token hstart hlex (hx t hlex)
  | indent t hlex hstart hwidth =>
    have hbefore : before = none ∨ before = some .newline := (hs.start hstart).imp_left And.left
    have hmarks : ∀ u ∈ [(⟨.indent, x.span⟩ : Located)], u.token = .indent ∨ u.token = .dedent :=
      List.forall_mem_singleton.2 (Or.inl rfl)
    exact contributes_marks hs hstart hmarks ⟨hbefore, trivial⟩ rfl hlex (hx t hlex)
  | dedent t hlex hstart hle hwidth =>
    refine contributes_marks hs hstart (fun u hu => ?_) ?_ ?_ hlex (hx t hlex)
    · rw [List.eq_of_mem_replicate hu]
      exact Or.inr rfl
    · rcases hs.start hstart with ⟨-, hlevels⟩ | hnewline
      · rw [wider, hlevels]
        trivial
      · exact (linked_replicate _ _ (Or.inl hnewline)).1
    · rw [length_levels x.width]
      exact blocksBehind_replicate _ _ _

/-- **What lexemes contribute fits.** -/
theorem Reaches.contributes (h : Reaches s xs ts s') (hs : s.Behind before)
    (hxs : ∀ x ∈ xs, ∀ t, x.lexeme = .token t → t.isLayout = false) :
    s.Contributes before xs ts s' := by
  induction h generalizing before with
  | nil s => exact .nil hs rfl
  | cons hstep hrest ih =>
    obtain ⟨hx, hxs⟩ := List.forall_mem_cons.1 hxs
    have hfirst := (takes_of_step hstep).contributes hs hx
    exact hfirst.append (ih hfirst.behind hxs)

/-! ## The end -/

/-- What comes in front of the end: the end of the last line, and of all blocks. -/
def ending (s : Layout) (last : Span) : List Located :=
  (if s.atStart then [] else [⟨.newline, last⟩]) ++
    List.replicate s.levels.length ⟨.dedent, last⟩

theorem close_eq (s : Layout) (last : Span) :
    s.close last = s.ending last ++ [⟨.finish, last⟩] := by
  rw [close, ending, List.map_const']

theorem newline_or_dedent_of_mem_ending {last : Span} {u : Located} (h : u ∈ s.ending last) :
    u.token = .newline ∨ u.token = .dedent := by
  rcases List.mem_append.1 h with h | h
  · split at h
    · cases h
    · rw [List.mem_singleton.1 h]
      exact Or.inl rfl
  · rw [List.eq_of_mem_replicate h]
    exact Or.inr rfl

/-- The end fits what is there. -/
theorem linked_ending (hs : s.Behind before) (last : Span) :
    Linked before (s.ending last) ∧ MayFollow (lastOf before (s.ending last)) .finish := by
  cases hstart : s.atStart with
  | false =>
    rw [ending, if_neg (by rw [hstart]; exact Bool.false_ne_true)]
    obtain ⟨hlinked, hlast⟩ := linked_replicate s.levels.length last (Or.inl rfl)
    exact ⟨⟨hs.inside hstart, hlinked⟩, Or.inr hlast⟩
  | true =>
    rw [ending, if_pos hstart, List.nil_append]
    rcases hs.start hstart with ⟨hnone, hlevels⟩ | hnewline
    · rw [hlevels]
      exact ⟨trivial, Or.inl hnone⟩
    · obtain ⟨hlinked, hlast⟩ := linked_replicate s.levels.length last (Or.inl hnewline)
      exact ⟨hlinked, Or.inr hlast⟩

/-- All blocks are closed in the end. -/
theorem blocksBehind_ending (s : Layout) (last : Span) :
    blocksBehind s.levels.length (s.ending last) = some 0 := by
  have hdedents := blocksBehind_replicate 0 s.levels.length last
  rw [Nat.zero_add] at hdedents
  rw [ending]
  split
  · exact hdedents
  · exact hdedents

end Layout

/-! ## A script -/

variable {cs : List Char} {ts : List Located}

/-- What is scanned is no token of layout. -/
theorem isLayout_of_mem_scan {x : Scanned} (hx : x ∈ (scan .start cs).1) {t : Token}
    (ht : x.lexeme = .token t) : t.isLayout = false := by
  obtain ⟨before, hfound⟩ := exists_foundBehind hx
  obtain ⟨c, rest, n, -, hmunch⟩ := hfound.munch_eq
  rw [ht] at hmunch
  have hspells : Spells (c :: rest.take n) (.token t) :=
    (cut_munch hmunch fun slice h => by cases h).spells
  exact hspells.isLayout

/-- The tokens of a text, its lines and its blocks. -/
structure LaidOut (cs : List Char) (ts : List Located) : Prop where
  /-- They end with `finish`, which stands nowhere else. -/
  finish : ∃ body last, ts = body ++ [⟨.finish, last⟩] ∧ ∀ t ∈ body, t.token ≠ .finish
  /-- Without those of layout they are the tokens of the lexemes, so that nothing is left of
  comments. -/
  textOf_eq : textOf ts = ofLine (scan .start cs).1
  /-- As many blocks are closed as are opened. -/
  balanced : occurrences .dedent ts = occurrences .indent ts
  /-- No block is closed that is not open. -/
  dedent_le : ∀ front rest, ts = front ++ rest →
    occurrences .dedent front ≤ occurrences .indent front
  /-- Every token may come behind the one in front of it. -/
  mayFollow : ∀ front t rest, ts = front ++ t :: rest →
    MayFollow (front.getLast?.map Located.token) t.token
  /-- A block starts with a token of the text. -/
  indented : ∀ front t rest, ts = front ++ t :: rest → t.token = .indent →
    ∃ u more, rest = u :: more ∧ u.token.isLayout = false
  /-- Up to the layout tokens at the end, no bracket is open in front of one. -/
  outside : ∃ body closing, ts = body ++ closing ∧ (∀ t ∈ closing, t.token.isLayout = true) ∧
    Outside 0 body
  /-- A token of the text stands where its first character does. -/
  located : ∀ t ∈ ts, t.token.isLayout = false → ∃ before c rest n, cs = before ++ c :: rest ∧
    munch c rest = (.token t.token, n) ∧ t.span = Span.behind before
  /-- The tokens of the text stand one behind the other. -/
  sorted : (positions ts).Pairwise Span.Before

theorem mem_ofLine {xs : List Scanned} {t : Located} (h : t ∈ ofLine xs) :
    ∃ x ∈ xs, x.lexeme = .token t.token ∧ x.span = t.span := by
  obtain ⟨x, hx, htoken⟩ := List.mem_filterMap.1 h
  refine ⟨x, hx, ?_⟩
  rw [Scanned.token?.eq_def] at htoken
  split at htoken
  · cases htoken
    exact ⟨‹_›, rfl⟩
  · cases htoken

theorem Linked.mayFollow {before : Option Token} (h : Linked before ts) {front : List Located}
    {t : Located} {rest : List Located} (heq : ts = front ++ t :: rest) :
    MayFollow (lastOf before front) t.token := by
  subst heq
  exact (linked_append.1 h).2.1

/-- Layout tokens do not come behind the start of a block. -/
theorem isLayout_of_mayFollow {t : Token} (h : MayFollow (some .indent) t) :
    t.isLayout = false := by
  cases t with
  | newline =>
    obtain ⟨u, hu, hlayout⟩ := h
    cases hu
    cases hlayout
  | indent => rcases h with h | h <;> cases h
  | dedent => rcases h with h | h <;> cases h
  | finish => rcases h with h | h | h <;> cases h
  | _ => rfl

/-- Behind the start of a block a token of the text stands. -/
theorem Linked.indented {before : Option Token} {body : List Located} {last : Span}
    (h : Linked before (body ++ [⟨.finish, last⟩])) {front rest : List Located} {t : Located}
    (heq : body ++ [⟨.finish, last⟩] = front ++ t :: rest) (ht : t.token = .indent) :
    ∃ u more, rest = u :: more ∧ u.token.isLayout = false := by
  cases rest with
  | nil =>
    obtain ⟨-, htoken⟩ := List.append_inj' heq rfl
    obtain ⟨rfl, -⟩ := List.cons.inj htoken
    cases ht
  | cons u more =>
    have hfollow := h.mayFollow (heq.trans (List.append_cons front t _))
    rw [lastOf_concat, ht] at hfollow
    exact ⟨u, more, rfl, isLayout_of_mayFollow hfollow⟩

/-- Where all blocks are closed, none is closed that is not open. -/
theorem dedent_le_of_blocksBehind {front rest : List Located} {m : Nat}
    (h : blocksBehind 0 (front ++ rest) = some m) :
    occurrences .dedent front ≤ occurrences .indent front := by
  rw [blocksBehind_append] at h
  obtain ⟨k, hk, -⟩ := Option.bind_eq_some_iff.1 h
  have := occurrences_of_blocksBehind hk
  omega

/-- A token that is scanned stands where its first character does. -/
theorem located_of_mem_ofLine {t : Located} (h : t ∈ ofLine (scan .start cs).1) :
    ∃ before c rest n, cs = before ++ c :: rest ∧ munch c rest = (.token t.token, n) ∧
      t.span = Span.behind before := by
  obtain ⟨x, hx, hlexeme, hspan⟩ := mem_ofLine h
  obtain ⟨before, hfound⟩ := exists_foundBehind hx
  obtain ⟨c, rest, n, hcs, hmunch⟩ := hfound.munch_eq
  rw [hlexeme] at hmunch
  exact ⟨before, c, rest, n, hcs, hmunch, hspan.symm.trans hfound.span_eq⟩

/-- **The tokens of a script form lines and blocks.** -/
theorem laidOut_of_ofSource (h : ofSource cs = .ok ts) : LaidOut cs ts := by
  obtain ⟨body, s, hreaches, hts⟩ := Layout.reaches_of_run h
  have hsorted := sorted_positions h
  rw [Layout.close_eq] at hts
  generalize (scan .start cs).2.span = last at hts
  subst hts
  have hbody := hreaches.contributes Layout.behind_start fun x hx t => isLayout_of_mem_scan hx
  have hending : ∀ t ∈ s.ending last, t.token = .newline ∨ t.token = .dedent := fun t =>
    Layout.newline_or_dedent_of_mem_ending
  have hclosing : ∀ t ∈ s.ending last ++ [⟨.finish, last⟩], t.token.isLayout = true := by
    refine List.forall_mem_append.2 ⟨fun t ht => ?_, List.forall_mem_singleton.2 rfl⟩
    rcases hending t ht with htoken | htoken <;> rw [htoken] <;> rfl
  have hlinked : Linked none (body ++ (s.ending last ++ [⟨.finish, last⟩])) := by
    obtain ⟨hlink, hlast⟩ := Layout.linked_ending hbody.behind last
    exact linked_append.2 ⟨hbody.linked, linked_append.2 ⟨hlink, hlast, trivial⟩⟩
  have hblocks : blocksBehind 0 (body ++ (s.ending last ++ [⟨.finish, last⟩])) = some 0 := by
    have hlevels : blocksBehind 0 body = some s.levels.length := hbody.blocks_eq
    rw [blocksBehind_append, hlevels, Option.bind_some, blocksBehind_append,
      Layout.blocksBehind_ending]
    rfl
  have htext : textOf (body ++ (s.ending last ++ [⟨.finish, last⟩])) =
      ofLine (scan .start cs).1 := by
    rw [textOf_append, hbody.textOf_eq, textOf_of_isLayout hclosing, List.append_nil]
  exact {
    finish := by
      refine ⟨body ++ s.ending last, last, (List.append_assoc ..).symm,
        List.forall_mem_append.2 ⟨hbody.ne_finish, fun t ht => ?_⟩⟩
      rcases hending t ht with htoken | htoken <;> rw [htoken] <;> exact Token.noConfusion
    textOf_eq := htext
    balanced := occurrences_of_blocksBehind hblocks
    dedent_le := fun front rest heq => dedent_le_of_blocksBehind (heq ▸ hblocks)
    mayFollow := fun front t rest heq => lastOf_none front ▸ hlinked.mayFollow heq
    indented := fun front t rest heq ht => by
      rw [← List.append_assoc] at hlinked heq
      exact hlinked.indented heq ht
    outside := ⟨body, _, rfl, hclosing, hbody.outside⟩
    located := fun t ht hlayout => by
      refine located_of_mem_ofLine (htext ▸ List.mem_filter.2 ⟨ht, ?_⟩)
      rw [hlayout]
      rfl
    sorted := hsorted }

end Token

end ReactiveScript

import ReactiveScript.Proofs.Grammar.Soundness
import ReactiveScript.Proofs.Parts

/-!
# Where the parts of an expression come from

A parser makes up no positions.  Every part of an expression that it reads stands at one of its
tokens, unless the part is in a hole of a format string; then it comes from what was made of the body
of that format string.

* `Grammar.StandsAt`, `Grammar.StandsInHole` — the two kinds of parts.
* `Grammar.Drawn` — all parts of an expression come from some tokens.
* `Grammar.drawn_expressionAt` — expression parsers draw expressions from the tokens that they read.
-/

set_option autoImplicit false

namespace ReactiveScript

namespace Grammar

variable {format : FormatParser} {ts us : List Located}

/-- A part of an expression stands at a token, and a format string is what was made of its body. -/
def StandsAt (format : FormatParser) (y : Expr) (t : Located) : Prop :=
  y.span = t.span ∧ ∀ s ps, y = .format s ps →
    ∃ raw, t.token = .format raw ∧ format raw t.span = .ok ps

/-- A part of an expression stands in a hole of a format string among some tokens. -/
def StandsInHole (format : FormatParser) (ts : List Located) (y : Expr) : Prop :=
  ∃ raw s ps, (⟨.format raw, s⟩ : Located) ∈ ts ∧ format raw s = .ok ps ∧
    ∃ h ∈ Piece.holes ps, y ∈ h.1.parts

/-- All parts of an expression come from some tokens. -/
structure Drawn (format : FormatParser) (ts : List Located) (e : Expr) : Prop where
  /-- The expression itself stands at a token. -/
  first : ∃ t ∈ ts, e.span = t.span
  /-- So does each of its parts, if it is not in a hole. -/
  parts : ∀ y ∈ e.parts, (∃ t ∈ ts, StandsAt format y t) ∨ StandsInHole format ts y

namespace Drawn

variable {e : Expr}

theorem mono (h : Drawn format ts e) (hsub : ts ⊆ us) : Drawn format us e where
  first := by
    obtain ⟨t, ht, hspan⟩ := h.first
    exact ⟨t, hsub ht, hspan⟩
  parts y hy := (h.parts y hy).imp (fun ⟨t, ht, hstands⟩ => ⟨t, hsub ht, hstands⟩)
    fun ⟨raw, s, ps, hmem, hstands⟩ => ⟨raw, s, ps, hsub hmem, hstands⟩

/-- An expression that is no format string, if its operands come from some tokens. -/
theorem compound {ys : List Expr} (hfirst : ∃ t ∈ ts, e.span = t.span)
    (hne : ∀ s ps, e ≠ .format s ps) (hparts : e.parts = e :: ys)
    (hys : ∀ y ∈ ys, ∃ e', Drawn format ts e' ∧ y ∈ e'.parts) : Drawn format ts e where
  first := hfirst
  parts := by
    rw [hparts]
    refine List.forall_mem_cons.2 ⟨?_, fun y hy => ?_⟩
    · obtain ⟨t, ht, hspan⟩ := hfirst
      exact Or.inl ⟨t, ht, hspan, fun s ps heq => absurd heq (hne s ps)⟩
    · obtain ⟨e', hdrawn, hy⟩ := hys y hy
      exact hdrawn.parts y hy

/-- An operation with two operands, one on either side of a token. -/
theorem joined {l r : Expr} (hl : Drawn format ts l) (t : Located) (hr : Drawn format us r)
    (hspan : e.span = l.span) (hne : ∀ s ps, e ≠ .format s ps)
    (hparts : e.parts = e :: (l.parts ++ r.parts)) : Drawn format (ts ++ t :: us) e := by
  have hleft := hl.mono (List.subset_append_left ts (t :: us))
  have hright := hr.mono fun u hu => List.mem_append_right ts (List.mem_cons_of_mem t hu)
  refine compound ?_ hne hparts fun y hy => ?_
  · rw [hspan]
    exact hleft.first
  · exact (List.mem_append.1 hy).elim (fun hy => ⟨l, hleft, hy⟩) fun hy => ⟨r, hright, hy⟩

end Drawn

/-- The items of a list come from tokens of the list. -/
theorem Items.exists_of_mem {α : Type} {item : Spelling α} {as : List α} (h : Items item ts as)
    {a : α} (ha : a ∈ as) : ∃ us, us ⊆ ts ∧ item us a := by
  induction h with
  | nil => cases ha
  | last h =>
    rw [List.mem_singleton.1 ha]
    exact ⟨_, List.Subset.refl _, h⟩
  | cons h s hs ih =>
    rcases List.mem_cons.1 ha with rfl | ha
    · exact ⟨_, List.subset_append_left _ _, h⟩
    · obtain ⟨us, hsub, hitem⟩ := ih ha
      exact ⟨us, fun u hu => List.mem_append_right _ (List.mem_cons_of_mem _ (hsub hu)), hitem⟩

/-- **The parts of a phrase come from its tokens**, if those of the expressions in its brackets do. -/
theorem Phrase.drawn {l : Level} {e : Expr} (h : Phrase (Drawn format) format l ts e) :
    Drawn format ts e := by
  induction h with
  | tighter h ih => exact ih
  | logical op hl s hr ihl ihr => exact ihl.joined _ ihr rfl nofun rfl
  | compare op hop hl s hr ihl ihr => exact ihl.joined _ ihr rfl nofun rfl
  | binary op hop hl s hr ihl ihr => exact ihl.joined _ ihr rfl nofun rfl
  | @unary op s ts e h ih =>
    refine .compound ⟨_, List.mem_cons_self .., rfl⟩ nofun rfl fun y hy => ?_
    exact ⟨e, ih.mono (List.subset_cons_self _ _), hy⟩
  | @call ts us span f hf s s' args kws hargs hkws ih =>
    have hname := ih.mono (List.subset_append_left ts
      (⟨.mark .openParen, s⟩ :: (us ++ [⟨.mark .closeParen, s'⟩])))
    have hsub : us ⊆ ts ++ ⟨.mark .openParen, s⟩ :: (us ++ [⟨.mark .closeParen, s'⟩]) :=
      fun u hu => List.mem_append_right ts (List.mem_cons_of_mem _ (List.mem_append_left _ hu))
    refine .compound hname.first nofun rfl fun y hy => ?_
    rcases List.mem_append.1 hy with hy | hy
    · obtain ⟨a, ha, hy⟩ := Expr.mem_allParts.1 hy
      obtain ⟨vs, hvs, harg⟩ := hargs.exists_of_mem
        (List.mem_append_left _ (List.mem_map_of_mem (f := Sum.inl) ha))
      cases harg with
      | positional h => exact ⟨a, h.mono fun u hu => hsub (hvs hu), hy⟩
    · obtain ⟨⟨k, a⟩, ha, hy⟩ := Expr.mem_keywordParts.1 hy
      obtain ⟨vs, hvs, harg⟩ := hargs.exists_of_mem
        (List.mem_append_right _ (List.mem_map_of_mem (f := Sum.inr) ha))
      cases harg with
      | keyword k s s' h =>
        refine ⟨a, h.mono fun u hu => hsub (hvs ?_), hy⟩
        exact List.mem_cons_of_mem _ (List.mem_cons_of_mem _ hu)
  | index he s s' hi ih =>
    exact ih.joined _ (hi.mono (List.subset_append_left _ _)) rfl nofun rfl
  | @field ts e he s s' a ih =>
    have hleft := ih.mono (List.subset_append_left ts [⟨.mark .dot, s⟩, ⟨.name a, s'⟩])
    exact .compound hleft.first nofun rfl fun y hy => ⟨e, hleft, hy⟩
  | @format raw s ps h =>
    refine ⟨⟨_, List.mem_singleton_self _, rfl⟩, List.forall_mem_cons.2 ⟨?_, fun y hy => ?_⟩⟩
    · refine Or.inl ⟨_, List.mem_singleton_self _, rfl, fun s' ps' heq => ?_⟩
      cases heq
      exact ⟨raw, rfl, h⟩
    · exact Or.inr ⟨raw, s, ps, List.mem_singleton_self _, h, Expr.mem_pieceParts.1 hy⟩
  | parens s s' h =>
    exact h.mono fun u hu => List.mem_cons_of_mem _ (List.mem_append_left _ hu)
  | @list ts es s s' h =>
    refine .compound ⟨_, List.mem_cons_self .., rfl⟩ nofun rfl fun y hy => ?_
    obtain ⟨a, ha, hy⟩ := Expr.mem_allParts.1 hy
    obtain ⟨us, hus, hdrawn⟩ := h.exists_of_mem ha
    refine ⟨a, hdrawn.mono fun u hu => ?_, hy⟩
    exact List.mem_cons_of_mem _ (List.mem_append_left _ (hus hu))
  | @dict ts es s s' h =>
    refine .compound ⟨_, List.mem_cons_self .., rfl⟩ nofun rfl fun y hy => ?_
    obtain ⟨⟨k, v⟩, ha, hy⟩ := Expr.mem_entryParts.1 hy
    obtain ⟨us, hus, hentry⟩ := h.exists_of_mem ha
    have hsub : us ⊆ ⟨.mark .openBrace, s⟩ :: (ts ++ [⟨.mark .closeBrace, s'⟩]) := fun u hu =>
      List.mem_cons_of_mem _ (List.mem_append_left _ (hus hu))
    cases hentry with
    | intro hk s hv =>
      rcases hy with hy | hy
      · exact ⟨k, hk.mono fun u hu => hsub (List.mem_append_left _ hu), hy⟩
      · refine ⟨v, hv.mono fun u hu => hsub ?_, hy⟩
        exact List.mem_append_right _ (List.mem_cons_of_mem _ hu)
  | _ => exact .compound ⟨_, List.mem_cons_self .., rfl⟩ nofun rfl nofun

/-- **The parts of an expression come from the tokens that are read.** -/
theorem drawn_expressionAt (format : FormatParser) (n : Nat) :
    Sound (expressionAt format n) (Drawn format) := by
  induction n with
  | zero => exact fun ts e rest hread => by cases hread
  | succ n ih =>
    intro ts e rest hread
    obtain ⟨used, heq, hphrase⟩ := sound_disjunction ih hread
    exact ⟨used, heq, hphrase.drawn⟩

end Grammar

end ReactiveScript

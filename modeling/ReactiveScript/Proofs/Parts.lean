import Mathlib.Data.List.Basic
import ReactiveScript.Tree.Names

/-!
# The parts of an expression

An expression has parts, itself among them.  Moving and renaming keep the shape of an expression, so
that they do the same to each of its parts.

* `Expr.parts` — the parts of an expression, in the order of the text.
* `Piece.holes` — the expressions in a format string.
* `Script.expressions` — the expressions in the statements of a script.
* `Expr.mapWith_id`, `Expr.mapWith_mapWith` — an expression that is not moved, or moved twice.
* `Expr.parts_mapWith` — the parts of an expression moved and renamed.
* `Expr.mentions_mapWith` — what it mentions.
* `Expr.mapWith_congr` — only the positions of its parts matter for where an expression is moved.
-/

set_option autoImplicit false

namespace ReactiveScript

/-- The expressions of the holes among some pieces, and their numbers of places. -/
def Piece.holes (ps : List Piece) : List (Expr × Option Nat) := ps.filterMap fun
  | .text _ => none
  | .hole e places => some (e, places)

namespace Expr

/-! ## Parts -/

mutual

/-- The parts of an expression, itself first. -/
def parts : Expr → List Expr
  | .literal s v => [.literal s v]
  | .name s n => [.name s n]
  | .format s ps => .format s ps :: pieceParts ps
  | .list s es => .list s es :: allParts es
  | .dict s es => .dict s es :: entryParts es
  | .unary s op e => .unary s op e :: parts e
  | .binary s op l r => .binary s op l r :: (parts l ++ parts r)
  | .logical s op l r => .logical s op l r :: (parts l ++ parts r)
  | .call s f args kws => .call s f args kws :: (allParts args ++ keywordParts kws)
  | .index s e i => .index s e i :: (parts e ++ parts i)
  | .attribute s e a => .attribute s e a :: parts e

/-- The parts of the expressions in a format string. -/
def pieceParts : List Piece → List Expr
  | [] => []
  | .text _ :: ps => pieceParts ps
  | .hole e _ :: ps => parts e ++ pieceParts ps

/-- The parts of some expressions. -/
def allParts : List Expr → List Expr
  | [] => []
  | e :: es => parts e ++ allParts es

/-- The parts of the keys and values of a dict. -/
def entryParts : List (Expr × Expr) → List Expr
  | [] => []
  | (k, v) :: es => parts k ++ parts v ++ entryParts es

/-- The parts of keyword arguments. -/
def keywordParts : List (String × Expr) → List Expr
  | [] => []
  | (_, v) :: es => parts v ++ keywordParts es

end

theorem mem_parts_self (e : Expr) : e ∈ e.parts := by
  cases e <;> exact List.mem_cons_self ..

theorem mem_pieceParts {y : Expr} {ps : List Piece} :
    y ∈ pieceParts ps ↔ ∃ h ∈ Piece.holes ps, y ∈ h.1.parts := by
  induction ps with
  | nil => simp [pieceParts, Piece.holes]
  | cons p ps ih =>
    cases p with
    | text s => exact ih
    | hole e places =>
      have hholes : Piece.holes (.hole e places :: ps) = (e, places) :: Piece.holes ps := rfl
      rw [pieceParts, List.mem_append, ih, hholes, List.exists_mem_cons_iff]

theorem mem_allParts {y : Expr} {es : List Expr} : y ∈ allParts es ↔ ∃ e ∈ es, y ∈ e.parts := by
  induction es with
  | nil => simp [allParts]
  | cons e es ih => rw [allParts, List.mem_append, ih, List.exists_mem_cons_iff]

theorem mem_entryParts {y : Expr} {es : List (Expr × Expr)} :
    y ∈ entryParts es ↔ ∃ e ∈ es, y ∈ e.1.parts ∨ y ∈ e.2.parts := by
  induction es with
  | nil => simp [entryParts]
  | cons e es ih =>
    rw [entryParts, List.mem_append, List.mem_append, ih, List.exists_mem_cons_iff]

theorem mem_keywordParts {y : Expr} {es : List (String × Expr)} :
    y ∈ keywordParts es ↔ ∃ e ∈ es, y ∈ e.2.parts := by
  induction es with
  | nil => simp [keywordParts]
  | cons e es ih => rw [keywordParts, List.mem_append, ih, List.exists_mem_cons_iff]

/-! ## Moving and renaming -/

mutual

/-- An expression that is neither moved nor renamed stays as it is. -/
theorem mapWith_id : (e : Expr) → e.mapWith id id = e
  | .literal _ _ => rfl
  | .name _ _ => rfl
  | .format _ ps => by rw [mapWith, mapPieces_id ps]; rfl
  | .list _ es => by rw [mapWith, mapAll_id es]; rfl
  | .dict _ es => by rw [mapWith, mapEntries_id es]; rfl
  | .unary _ _ e => by rw [mapWith, mapWith_id e]; rfl
  | .binary _ _ l r => by rw [mapWith, mapWith_id l, mapWith_id r]; rfl
  | .logical _ _ l r => by rw [mapWith, mapWith_id l, mapWith_id r]; rfl
  | .call _ _ args kws => by rw [mapWith, mapAll_id args, mapKeywords_id kws]; rfl
  | .index _ e i => by rw [mapWith, mapWith_id e, mapWith_id i]; rfl
  | .attribute _ e _ => by rw [mapWith, mapWith_id e]; rfl

theorem mapPieces_id : (ps : List Piece) → mapPieces id id ps = ps
  | [] => rfl
  | .text _ :: ps => by rw [mapPieces, mapPieces_id ps]
  | .hole e _ :: ps => by rw [mapPieces, mapWith_id e, mapPieces_id ps]

theorem mapAll_id : (es : List Expr) → mapAll id id es = es
  | [] => rfl
  | e :: es => by rw [mapAll, mapWith_id e, mapAll_id es]

theorem mapEntries_id : (es : List (Expr × Expr)) → mapEntries id id es = es
  | [] => rfl
  | (key, e) :: es => by rw [mapEntries, mapWith_id key, mapWith_id e, mapEntries_id es]

theorem mapKeywords_id : (es : List (String × Expr)) → mapKeywords id id es = es
  | [] => rfl
  | (_, e) :: es => by rw [mapKeywords, mapWith_id e, mapKeywords_id es]

end

mutual

/-- Spans moved twice are moved by both moves. -/
theorem mapWith_mapWith (f g : Span → Span) : (e : Expr) →
    (e.mapWith f id).mapWith g id = e.mapWith (g ∘ f) id
  | .literal _ _ => rfl
  | .name _ _ => rfl
  | .format s ps => by rw [mapWith, mapWith, mapPieces_mapPieces f g ps]; rfl
  | .list s es => by rw [mapWith, mapWith, mapAll_mapAll f g es]; rfl
  | .dict s es => by rw [mapWith, mapWith, mapEntries_mapEntries f g es]; rfl
  | .unary s op e => by rw [mapWith, mapWith, mapWith_mapWith f g e]; rfl
  | .binary s op l r => by rw [mapWith, mapWith, mapWith_mapWith f g l, mapWith_mapWith f g r]; rfl
  | .logical s op l r => by rw [mapWith, mapWith, mapWith_mapWith f g l, mapWith_mapWith f g r]; rfl
  | .call s n args kws => by
    rw [mapWith, mapWith, mapAll_mapAll f g args, mapKeywords_mapKeywords f g kws]; rfl
  | .index s e i => by rw [mapWith, mapWith, mapWith_mapWith f g e, mapWith_mapWith f g i]; rfl
  | .attribute s e a => by rw [mapWith, mapWith, mapWith_mapWith f g e]; rfl

theorem mapPieces_mapPieces (f g : Span → Span) : (ps : List Piece) →
    mapPieces g id (mapPieces f id ps) = mapPieces (g ∘ f) id ps
  | [] => rfl
  | .text s :: ps => by rw [mapPieces, mapPieces, mapPieces_mapPieces f g ps]; rfl
  | .hole e _ :: ps => by
    rw [mapPieces, mapPieces, mapWith_mapWith f g e, mapPieces_mapPieces f g ps]; rfl

theorem mapAll_mapAll (f g : Span → Span) : (es : List Expr) →
    mapAll g id (mapAll f id es) = mapAll (g ∘ f) id es
  | [] => rfl
  | e :: es => by rw [mapAll, mapAll, mapWith_mapWith f g e, mapAll_mapAll f g es]; rfl

theorem mapEntries_mapEntries (f g : Span → Span) : (es : List (Expr × Expr)) →
    mapEntries g id (mapEntries f id es) = mapEntries (g ∘ f) id es
  | [] => rfl
  | (k, v) :: es => by
    rw [mapEntries, mapEntries, mapWith_mapWith f g k, mapWith_mapWith f g v,
      mapEntries_mapEntries f g es]
    rfl

theorem mapKeywords_mapKeywords (f g : Span → Span) : (es : List (String × Expr)) →
    mapKeywords g id (mapKeywords f id es) = mapKeywords (g ∘ f) id es
  | [] => rfl
  | (_, v) :: es => by
    rw [mapKeywords, mapKeywords, mapWith_mapWith f g v, mapKeywords_mapKeywords f g es]
    rfl

end

variable (move : Span → Span) (rename : String → String)

theorem holes_mapPieces (ps : List Piece) : Piece.holes (mapPieces move rename ps) =
    (Piece.holes ps).map (Prod.map (mapWith move rename) id) := by
  induction ps with
  | nil => rfl
  | cons p ps ih =>
    cases p with
    | text s => exact ih
    | hole e places => exact congrArg ((e.mapWith move rename, places) :: ·) ih

theorem span_mapWith (e : Expr) : (e.mapWith move rename).span = move e.span := by
  cases e <;> rfl

mutual

/-- **Every part is moved and renamed in the same way.** -/
theorem parts_mapWith : (e : Expr) →
    (e.mapWith move rename).parts = e.parts.map (mapWith move rename)
  | .literal _ _ => rfl
  | .name _ _ => rfl
  | .format _ ps => by
    rw [mapWith, parts, parts, parts_mapPieces ps, List.map_cons, mapWith]
  | .list _ es => by
    rw [mapWith, parts, parts, parts_mapAll es, List.map_cons, mapWith]
  | .dict _ es => by
    rw [mapWith, parts, parts, parts_mapEntries es, List.map_cons, mapWith]
  | .unary _ op e => by
    rw [mapWith, parts, parts, parts_mapWith e, List.map_cons, mapWith]
  | .binary _ op l r => by
    rw [mapWith, parts, parts, parts_mapWith l, parts_mapWith r, List.map_cons, List.map_append,
      mapWith]
  | .logical _ op l r => by
    rw [mapWith, parts, parts, parts_mapWith l, parts_mapWith r, List.map_cons, List.map_append,
      mapWith]
  | .call _ f args kws => by
    rw [mapWith, parts, parts, parts_mapAll args, parts_mapKeywords kws, List.map_cons,
      List.map_append, mapWith]
  | .index _ e i => by
    rw [mapWith, parts, parts, parts_mapWith e, parts_mapWith i, List.map_cons, List.map_append,
      mapWith]
  | .attribute _ e a => by
    rw [mapWith, parts, parts, parts_mapWith e, List.map_cons, mapWith]

theorem parts_mapPieces : (ps : List Piece) →
    pieceParts (mapPieces move rename ps) = (pieceParts ps).map (mapWith move rename)
  | [] => rfl
  | .text _ :: ps => by rw [mapPieces, pieceParts, pieceParts, parts_mapPieces ps]
  | .hole e _ :: ps => by
    rw [mapPieces, pieceParts, pieceParts, parts_mapWith e, parts_mapPieces ps, List.map_append]

theorem parts_mapAll : (es : List Expr) →
    allParts (mapAll move rename es) = (allParts es).map (mapWith move rename)
  | [] => rfl
  | e :: es => by
    rw [mapAll, allParts, allParts, parts_mapWith e, parts_mapAll es, List.map_append]

theorem parts_mapEntries : (es : List (Expr × Expr)) →
    entryParts (mapEntries move rename es) = (entryParts es).map (mapWith move rename)
  | [] => rfl
  | (k, v) :: es => by
    rw [mapEntries, entryParts, entryParts, parts_mapWith k, parts_mapWith v, parts_mapEntries es,
      List.map_append, List.map_append]

theorem parts_mapKeywords : (es : List (String × Expr)) →
    keywordParts (mapKeywords move rename es) = (keywordParts es).map (mapWith move rename)
  | [] => rfl
  | (_, v) :: es => by
    rw [mapKeywords, keywordParts, keywordParts, parts_mapWith v, parts_mapKeywords es,
      List.map_append]

end

mutual

/-- **What an expression mentions is renamed with it**; functions keep their names. -/
theorem mentions_mapWith : (e : Expr) →
    (e.mapWith move rename).mentions = e.mentions.map (Sum.map rename id)
  | .literal _ _ => rfl
  | .name _ _ => rfl
  | .format _ ps => by rw [mapWith, mentions, mentions, mentions_mapPieces ps]
  | .list _ es => by rw [mapWith, mentions, mentions, mentions_mapAll es]
  | .dict _ es => by rw [mapWith, mentions, mentions, mentions_mapEntries es]
  | .unary _ _ e => by rw [mapWith, mentions, mentions, mentions_mapWith e]
  | .binary _ _ l r => by
    rw [mapWith, mentions, mentions, mentions_mapWith l, mentions_mapWith r, List.map_append]
  | .logical _ _ l r => by
    rw [mapWith, mentions, mentions, mentions_mapWith l, mentions_mapWith r, List.map_append]
  | .call _ f args kws => by
    rw [mapWith, mentions, mentions, mentions_mapAll args, mentions_mapKeywords kws, List.map_cons,
      List.map_append]
    rfl
  | .index _ e i => by
    rw [mapWith, mentions, mentions, mentions_mapWith e, mentions_mapWith i, List.map_append]
  | .attribute _ e _ => by rw [mapWith, mentions, mentions, mentions_mapWith e]

theorem mentions_mapPieces : (ps : List Piece) →
    pieceMentions (mapPieces move rename ps) = (pieceMentions ps).map (Sum.map rename id)
  | [] => rfl
  | .text _ :: ps => by rw [mapPieces, pieceMentions, pieceMentions, mentions_mapPieces ps]
  | .hole e _ :: ps => by
    rw [mapPieces, pieceMentions, pieceMentions, mentions_mapWith e, mentions_mapPieces ps,
      List.map_append]

theorem mentions_mapAll : (es : List Expr) →
    allMentions (mapAll move rename es) = (allMentions es).map (Sum.map rename id)
  | [] => rfl
  | e :: es => by
    rw [mapAll, allMentions, allMentions, mentions_mapWith e, mentions_mapAll es, List.map_append]

theorem mentions_mapEntries : (es : List (Expr × Expr)) →
    entryMentions (mapEntries move rename es) = (entryMentions es).map (Sum.map rename id)
  | [] => rfl
  | (k, v) :: es => by
    rw [mapEntries, entryMentions, entryMentions, mentions_mapWith k, mentions_mapWith v,
      mentions_mapEntries es, List.map_append, List.map_append]

theorem mentions_mapKeywords : (es : List (String × Expr)) →
    keywordMentions (mapKeywords move rename es) = (keywordMentions es).map (Sum.map rename id)
  | [] => rfl
  | (_, v) :: es => by
    rw [mapKeywords, keywordMentions, keywordMentions, mentions_mapWith v, mentions_mapKeywords es,
      List.map_append]

end

variable {move move' : Span → Span} {rename : String → String}

mutual

/-- **Moves that agree about its parts move an expression to the same place.** -/
theorem mapWith_congr : (e : Expr) → (∀ y ∈ e.parts, move y.span = move' y.span) →
    e.mapWith move rename = e.mapWith move' rename
  | .literal s v, h => congrArg (literal · v) (h _ (mem_parts_self _))
  | .name s n, h => congrArg (name · (rename n)) (h _ (mem_parts_self _))
  | .format s ps, h => by
    obtain ⟨hself, hps⟩ := List.forall_mem_cons.1 h
    rw [mapWith, mapWith, mapPieces_congr ps hps, show move s = move' s from hself]
  | .list s es, h => by
    obtain ⟨hself, hes⟩ := List.forall_mem_cons.1 h
    rw [mapWith, mapWith, mapAll_congr es hes, show move s = move' s from hself]
  | .dict s es, h => by
    obtain ⟨hself, hes⟩ := List.forall_mem_cons.1 h
    rw [mapWith, mapWith, mapEntries_congr es hes, show move s = move' s from hself]
  | .unary s op e, h => by
    obtain ⟨hself, he⟩ := List.forall_mem_cons.1 h
    rw [mapWith, mapWith, mapWith_congr e he, show move s = move' s from hself]
  | .binary s op l r, h => by
    obtain ⟨hself, hparts⟩ := List.forall_mem_cons.1 h
    obtain ⟨hl, hr⟩ := List.forall_mem_append.1 hparts
    rw [mapWith, mapWith, mapWith_congr l hl, mapWith_congr r hr, show move s = move' s from hself]
  | .logical s op l r, h => by
    obtain ⟨hself, hparts⟩ := List.forall_mem_cons.1 h
    obtain ⟨hl, hr⟩ := List.forall_mem_append.1 hparts
    rw [mapWith, mapWith, mapWith_congr l hl, mapWith_congr r hr, show move s = move' s from hself]
  | .call s f args kws, h => by
    obtain ⟨hself, hparts⟩ := List.forall_mem_cons.1 h
    obtain ⟨hargs, hkws⟩ := List.forall_mem_append.1 hparts
    rw [mapWith, mapWith, mapAll_congr args hargs, mapKeywords_congr kws hkws,
      show move s = move' s from hself]
  | .index s e i, h => by
    obtain ⟨hself, hparts⟩ := List.forall_mem_cons.1 h
    obtain ⟨he, hi⟩ := List.forall_mem_append.1 hparts
    rw [mapWith, mapWith, mapWith_congr e he, mapWith_congr i hi, show move s = move' s from hself]
  | .attribute s e a, h => by
    obtain ⟨hself, he⟩ := List.forall_mem_cons.1 h
    rw [mapWith, mapWith, mapWith_congr e he, show move s = move' s from hself]

theorem mapPieces_congr : (ps : List Piece) →
    (∀ y ∈ pieceParts ps, move y.span = move' y.span) →
    mapPieces move rename ps = mapPieces move' rename ps
  | [], _ => rfl
  | .text s :: ps, h => by rw [mapPieces, mapPieces, mapPieces_congr ps h]
  | .hole e _ :: ps, h => by
    obtain ⟨he, hps⟩ := List.forall_mem_append.1 h
    rw [mapPieces, mapPieces, mapWith_congr e he, mapPieces_congr ps hps]

theorem mapAll_congr : (es : List Expr) → (∀ y ∈ allParts es, move y.span = move' y.span) →
    mapAll move rename es = mapAll move' rename es
  | [], _ => rfl
  | e :: es, h => by
    obtain ⟨he, hes⟩ := List.forall_mem_append.1 h
    rw [mapAll, mapAll, mapWith_congr e he, mapAll_congr es hes]

theorem mapEntries_congr : (es : List (Expr × Expr)) →
    (∀ y ∈ entryParts es, move y.span = move' y.span) →
    mapEntries move rename es = mapEntries move' rename es
  | [], _ => rfl
  | (k, v) :: es, h => by
    obtain ⟨hfirst, hes⟩ := List.forall_mem_append.1 h
    obtain ⟨hk, hv⟩ := List.forall_mem_append.1 hfirst
    rw [mapEntries, mapEntries, mapWith_congr k hk, mapWith_congr v hv, mapEntries_congr es hes]

theorem mapKeywords_congr : (es : List (String × Expr)) →
    (∀ y ∈ keywordParts es, move y.span = move' y.span) →
    mapKeywords move rename es = mapKeywords move' rename es
  | [], _ => rfl
  | (_, v) :: es, h => by
    obtain ⟨hv, hes⟩ := List.forall_mem_append.1 h
    rw [mapKeywords, mapKeywords, mapWith_congr v hv, mapKeywords_congr es hes]

end

end Expr

/-! ## The expressions of a script -/

namespace Stmt

mutual

/-- The expressions of a statement, those in its blocks included. -/
def expressions : Stmt → List Expr
  | .assign _ _ e => [e]
  | .expr _ e => [e]
  | .define _ _ _ _ body => blockExpressions body
  | .result _ none => []
  | .result _ (some e) => [e]
  | .choose _ branches otherwise => branchExpressions branches ++ blockExpressions otherwise
  | .loop _ _ e body => e :: blockExpressions body
  | .pass _ => []

/-- The expressions of the statements of a block. -/
def blockExpressions : List Stmt → List Expr
  | [] => []
  | s :: rest => expressions s ++ blockExpressions rest

/-- The tests of the branches of a choice, and the expressions in their blocks. -/
def branchExpressions : List (Expr × List Stmt) → List Expr
  | [] => []
  | (test, body) :: rest => test :: (blockExpressions body ++ branchExpressions rest)

end

end Stmt

/-- The expressions of a script, those in its functions included. -/
def Script.expressions (script : Script) : List Expr := Stmt.blockExpressions script.body

end ReactiveScript

import ReactiveScript.Token.Scan

/-!
# Layout

The second pass turns lexemes into the tokens that a parser reads.  Comments disappear, line ends
become the ends of logical lines, and the indentation of the first token of a logical line opens
and closes blocks:

* wider than the current level: one `indent`;
* narrower: one `dedent` for each level that is left, and the level arrived at has to be the width
  of the line.

Blank lines and comment lines do not count.  Inside brackets lines do not count either, so that a
call may run over several lines.  The stream ends with the end of the last line, the ends of all
open blocks, and `finish`.

`Token.ofSource` is the whole way from text to tokens.  It stops at the first thing wrong in the
order of the text, whether a stray character or an indentation.
-/

set_option autoImplicit false

namespace ReactiveScript

namespace Token

/-- What layout keeps track of. -/
structure Layout where
  /-- The widths of the open blocks above the outermost one, innermost first. -/
  levels : List Nat
  /-- How many brackets are open. -/
  depth : Nat
  /-- Whether the next token starts a logical line. -/
  atStart : Bool
  deriving DecidableEq

namespace Layout

/-- Nothing read yet. -/
def start : Layout := ⟨[], 0, true⟩

/-- The width of the current block. -/
def level (s : Layout) : Nat := s.levels.headD 0

/-- The tokens that a line of a certain width brings before its first token, and the levels after
it: blocks wider than the line are closed.  There are no levels when the line fits none. -/
def dedents (width : Nat) (span : Span) : List Nat → List Located × Option (List Nat)
  | [] => ([], if width = 0 then some [] else none)
  | top :: rest =>
    if width < top then
      let (tokens, levels) := dedents width span rest
      (⟨.dedent, span⟩ :: tokens, levels)
    else ([], if width = top then some (top :: rest) else none)

/-- Open or close blocks for a line of a certain width. -/
def enter (s : Layout) (width : Nat) (span : Span) : Except SyntaxError (List Located × Layout) :=
  if s.level < width then
    .ok ([⟨.indent, span⟩], { s with levels := width :: s.levels, atStart := false })
  else
    match dedents width span s.levels with
    | (tokens, some levels) => .ok (tokens, { s with levels, atStart := false })
    | (_, none) => .error ⟨.unmatchedIndentation, span⟩

/-- Count the brackets that a token opens and closes. -/
def track (s : Layout) : Token → Layout
  | .mark m =>
    if m.isOpening then { s with depth := s.depth + 1 }
    else if m.isClosing then { s with depth := s.depth - 1 }
    else s
  | _ => s

/-- The tokens that one lexeme contributes, and the layout after it. -/
def step (s : Layout) (x : Scanned) : Except SyntaxError (List Located × Layout) :=
  match x.lexeme with
  | .stray slice => .error ⟨.strayText slice, x.span⟩
  | .comment => .ok ([], s)
  | .line =>
    if s.depth = 0 then
      .ok (if s.atStart then [] else [⟨.newline, x.span⟩], { s with atStart := true })
    else .ok ([], s)
  | .token t => do
    let (before, s) ← if s.atStart then s.enter x.width x.span else .ok ([], s)
    .ok (before ++ [⟨t, x.span⟩], s.track t)

/-- The tokens at the end of a script: the last line and all blocks end there. -/
def close (s : Layout) (last : Span) : List Located :=
  (if s.atStart then [] else [⟨.newline, last⟩]) ++ s.levels.map (fun _ => ⟨.dedent, last⟩) ++
    [⟨.finish, last⟩]

/-- The tokens of a list of lexemes that ends at `last`. -/
def run (last : Span) : Layout → List Scanned → Except SyntaxError (List Located)
  | s, [] => .ok (s.close last)
  | s, x :: xs => do
    let (tokens, s) ← s.step x
    let rest ← run last s xs
    .ok (tokens ++ rest)

end Layout

/-- The tokens of a script. -/
def ofSource (cs : List Char) : Except SyntaxError (List Located) :=
  let (lexemes, last) := scan .start cs
  Layout.run last.span .start lexemes

end Token

end ReactiveScript

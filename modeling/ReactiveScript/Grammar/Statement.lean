import ReactiveScript.Grammar.Interpolation

/-!
# The statement grammar

A script is a list of statements.  A block is either one simple statement on the line of its colon
or an indented list of statements.  Functions are defined outside functions only, and results are
returned inside functions only; `inside` says which of the two a parser is in.

As with expressions, the parsers for statements take the parser for the statements of a nested
block as an argument, and `statementAt` ties the knot with a bound on the nesting.

* `Script.ofSource` — the script that a text spells.
-/

set_option autoImplicit false

namespace ReactiveScript

namespace Grammar

/-- The expressions of statements. -/
def phrase : Parser Expr := expression formatPieces

/-- Whether a token ends a statement. -/
def endsStatement : Token → Bool
  | .newline | .finish | .dedent => true
  | _ => false

/-- The tokens behind the end of a statement. -/
def endStatement (ts : List Located) : Except SyntaxError (List Located) :=
  match peek ts with
  | .newline => .ok (ts.drop 1)
  | .finish | .dedent => .ok ts
  | _ => unexpected "end of statement" ts

/-- A statement without a block. -/
def simple (inside : Bool) : Parser Stmt
  | ⟨.keyword .kwReturn, s⟩ :: ts =>
    if !inside then .error ⟨.strayReturn, s⟩
    else if endsStatement (peek ts) then .ok (.result s none, ts)
    else do
      let (e, ts) ← phrase ts
      .ok (.result s (some e), ts)
  | ⟨.keyword .kwPass, s⟩ :: ts => .ok (.pass s, ts)
  | ⟨.name target, s⟩ :: ⟨.mark .assign, _⟩ :: ts => do
    let (e, ts) ← phrase ts
    .ok (.assign s target e, ts)
  | ts => do
    let s := here ts
    let (e, ts) ← phrase ts
    .ok (.expr s e, ts)

/-- A statement without a block and its end. -/
def simpleLine (inside : Bool) : Parser Stmt := fun ts => do
  let (stmt, ts) ← simple inside ts
  let ts ← endStatement ts
  .ok (stmt, ts)

/-- The statements of an indented block up to its end; the number bounds how many. -/
def blockFrom (statement : Parser Stmt) : Nat → Parser (List Stmt)
  | 0, ts => unexpected "dedent" ts
  | n + 1, ts =>
    let ts := skipLines ts
    match peek ts with
    | .dedent => .ok ([], ts.drop 1)
    | .finish => .ok ([], ts)
    | _ => do
      let (stmt, ts) ← statement ts
      let (rest, ts) ← blockFrom statement n ts
      .ok (stmt :: rest, ts)

/-- A colon and the block behind it. -/
def block (inside : Bool) (statement : Parser Stmt) : Parser (List Stmt) := fun ts => do
  let ts ← expect (.mark .colon) ts
  match ts with
  | ⟨.newline, _⟩ :: ts =>
    let ts ← expect .indent (skipLines ts)
    let (body, ts) ← blockFrom statement (ts.length + 1) ts
    if body.isEmpty then .error ⟨.emptyBlock, here ts⟩ else .ok (body, ts)
  | ts =>
    let (stmt, ts) ← simpleLine inside ts
    .ok ([stmt], ts)

/-- The parameters of a function up to its closing parenthesis; `seen` holds those so far, and the
number bounds how many follow. -/
def parameters : Nat → List String → Parser (List String)
  | 0, _, ts => unexpected (Token.mark .closeParen).display ts
  | n + 1, seen, ts =>
    match ts with
    | ⟨.mark .closeParen, _⟩ :: ts => .ok ([], ts)
    | ts => do
      let (p, ts) ← expectName ts
      if p ∈ seen then .error ⟨.duplicateParameter p, here ts⟩
      else
        let (ps, ts) ← afterItem .closeParen (parameters n (p :: seen)) [] ts
        .ok (p :: ps, ts)

/-- A function definition behind its first word, which stands at `s`. -/
def definition (s : Span) (body : Parser (List Stmt)) : Parser Stmt := fun ts => do
  let (name, ts) ← expectName ts
  let ts ← expect (.mark .openParen) ts
  let (params, ts) ← parameters (ts.length + 1) [] ts
  let (body, ts) ← body ts
  .ok (.define s name params s body, ts)

/-- A test and its block. -/
def branch (body : Parser (List Stmt)) : Parser (Expr × List Stmt) := fun ts => do
  let (test, ts) ← phrase ts
  let (body, ts) ← body ts
  .ok ((test, body), ts)

/-- The further branches of a choice and its last block; the number bounds how many. -/
def branches (body : Parser (List Stmt)) :
    Nat → Parser (List (Expr × List Stmt) × List Stmt)
  | 0, ts => .ok (([], []), ts)
  | n + 1, ts =>
    match skipLines ts with
    | ⟨.keyword .kwElif, _⟩ :: ts => do
      let (b, ts) ← branch body ts
      let ((bs, otherwise), ts) ← branches body n ts
      .ok ((b :: bs, otherwise), ts)
    | ⟨.keyword .kwElse, _⟩ :: ts => do
      let (otherwise, ts) ← body ts
      .ok (([], otherwise), ts)
    | ts => .ok (([], []), ts)

/-- A choice behind its first word, which stands at `s`. -/
def choice (s : Span) (body : Parser (List Stmt)) : Parser Stmt := fun ts => do
  let (b, ts) ← branch body ts
  let ((bs, otherwise), ts) ← branches body (ts.length + 1) ts
  .ok (.choose s (b :: bs) otherwise, ts)

/-- A loop behind its first word, which stands at `s`. -/
def repetition (s : Span) (body : Parser (List Stmt)) : Parser Stmt := fun ts => do
  let (target, ts) ← expectName ts
  let ts ← expect (.keyword .kwIn) ts
  let (series, ts) ← phrase ts
  let (body, ts) ← body ts
  .ok (.loop s target series body, ts)

/-- A statement, given the parser for the statements of its blocks. -/
def statement (inside : Bool) (nested : Bool → Parser Stmt) : Parser Stmt
  | ⟨.keyword .kwDef, s⟩ :: ts =>
    if inside then .error ⟨.nestedDefinition, s⟩
    else definition s (block true (nested true)) ts
  | ⟨.keyword .kwIf, s⟩ :: ts => choice s (block inside (nested inside)) ts
  | ⟨.keyword .kwFor, s⟩ :: ts => repetition s (block inside (nested inside)) ts
  | ts => simpleLine inside ts

/-- A statement whose blocks nest less than `n` levels deep. -/
def statementAt : Nat → Bool → Parser Stmt
  | 0, _, ts => unexpected "statement" ts
  | n + 1, inside, ts => statement inside (statementAt n) ts

/-- The statements of a script up to its end; the number bounds how many. -/
def statements (statement : Parser Stmt) : Nat → List Located → Except SyntaxError (List Stmt)
  | 0, ts => unexpected "end of input" ts
  | n + 1, ts =>
    let ts := skipLines ts
    match peek ts with
    | .finish => .ok []
    | .indent => .error ⟨.strayIndent, here ts⟩
    | _ => do
      let (stmt, ts) ← statement ts
      let rest ← statements statement n ts
      .ok (stmt :: rest)

/-- The script that a list of tokens spells. -/
def script (ts : List Located) : Except SyntaxError Script := do
  let body ← statements (statementAt (ts.length + 1) false) (ts.length + 1) ts
  .ok ⟨body⟩

end Grammar

/-- The script that a text spells. -/
def Script.ofSource (source : String) : Except SyntaxError Script := do
  let ts ← Token.ofSource source.toList
  Grammar.script ts

end ReactiveScript

import ReactiveScript.Tree

/-!
# Names an expression or function refers to

`References` are the variables read and the functions called, each sorted and without repetition.
In a function body, its parameters and every variable assigned anywhere in it are local and are
left out.

* `Expr.references`, `FunctionDef.references` — the references of an expression and of a function.
-/

set_option autoImplicit false

namespace ReactiveScript

/-- Insert a text where it belongs in a sorted list without repetition. -/
def insertSorted (s : String) : List String → List String
  | [] => [s]
  | t :: ts => if s < t then s :: t :: ts else if s = t then t :: ts else t :: insertSorted s ts

/-- A list sorted and without repetition. -/
def sortedTexts (xs : List String) : List String := xs.foldr insertSorted []

/-- The names that something refers to. -/
structure References where
  /-- The variables it reads. -/
  names : List String
  /-- The functions it calls. -/
  calls : List String
  deriving DecidableEq, Repr

/-- The references of an expression. -/
def Expr.references (e : Expr) : References := ⟨sortedTexts e.names, sortedTexts e.calls⟩

namespace Stmt

mutual

/-- The variables that a statement assigns, those of its blocks included. -/
def targets : Stmt → List String
  | .assign _ t _ => [t]
  | .loop _ t _ body => t :: blockTargets body
  | .choose _ branches otherwise => branchTargets branches ++ blockTargets otherwise
  | _ => []

/-- The variables that the statements of a block assign. -/
def blockTargets : List Stmt → List String
  | [] => []
  | s :: rest => targets s ++ blockTargets rest

/-- The variables that the branches of a choice assign. -/
def branchTargets : List (Expr × List Stmt) → List String
  | [] => []
  | (_, body) :: rest => blockTargets body ++ branchTargets rest

end

mutual

/-- What the expressions of a statement mention, those of its blocks included. -/
def mentions : Stmt → List (String ⊕ String)
  | .assign _ _ e => e.mentions
  | .expr _ e => e.mentions
  | .result _ (some e) => e.mentions
  | .choose _ branches otherwise => branchMentions branches ++ blockMentions otherwise
  | .loop _ _ e body => e.mentions ++ blockMentions body
  | _ => []

/-- What the statements of a block mention. -/
def blockMentions : List Stmt → List (String ⊕ String)
  | [] => []
  | s :: rest => mentions s ++ blockMentions rest

/-- What the branches of a choice mention. -/
def branchMentions : List (Expr × List Stmt) → List (String ⊕ String)
  | [] => []
  | (test, body) :: rest => test.mentions ++ blockMentions body ++ branchMentions rest

end

end Stmt

namespace FunctionDef

/-- The names that are local to a function: its parameters and whatever its body assigns. -/
def locals (d : FunctionDef) : List String := d.params ++ Stmt.blockTargets d.body

/-- The references of a function. -/
def references (d : FunctionDef) : References :=
  let mentioned := Stmt.blockMentions d.body
  let names := mentioned.filterMap fun
    | .inl n => some n
    | .inr _ => none
  let calls := mentioned.filterMap fun
    | .inl _ => none
    | .inr f => some f
  ⟨sortedTexts (names.filter fun n => !d.locals.contains n), sortedTexts calls⟩

end FunctionDef

end ReactiveScript

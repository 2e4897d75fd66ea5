import ReactiveScript.Program
import ReactiveScript.Text.Quoted
import ReactiveScript.Tree.Printer

/-!
# Printing a program

Every node is printed with its id and dependencies.  A definition follows as it is; an expression
becomes a helper function of its parameters, with the call that stands where the statement stood:

    @atom(name="atom_00002_001_text", dependencies=["atom_00001_001_slider"])
    def _auto_atom_2(param0):
        return text(f"Double is {(param0 * 2)}")
    _auto_atom_2(n)
-/

set_option autoImplicit false

namespace ReactiveScript

namespace Declaration

/-- The line that names a node and its dependencies. -/
def headerText (d : Declaration) : String :=
  "@atom(name=" ++ Text.quote d.id.text ++ ", dependencies=[" ++
    String.intercalate ", " (d.dependencies.map fun id => Text.quote id.text) ++ "])\n"

/-- The lines for an expression, under the number of its helper function. -/
def expressionText (d : Declaration) (helper : Nat) (e : Expr) : String :=
  let name := "_auto_atom_" ++ toString helper
  let params := (List.range d.dependencies.length).map paramName
  let call := name ++ "(" ++ String.intercalate ", " d.arguments ++ ")\n"
  "def " ++ name ++ "(" ++ String.intercalate ", " params ++ "):\n    return " ++ e.print ++ "\n" ++
    match d.binds with
    | some target => target ++ " = " ++ call
    | none => call

/-- The lines for a definition. -/
def definitionText (f : FunctionDef) : String :=
  "def " ++ f.name ++ "(" ++ String.intercalate ", " f.params ++ "):\n" ++ Stmt.printBlock 1 f.body

end Declaration

namespace Program

/-- The texts of nodes, when `helpers` helper functions have been printed. -/
def printNodes (helpers : Nat) : List Declaration → List String
  | [] => []
  | d :: ds =>
    match d.task with
    | .definition f => (d.headerText ++ Declaration.definitionText f) :: printNodes helpers ds
    | .expression e =>
      (d.headerText ++ d.expressionText (helpers + 1) e) :: printNodes (helpers + 1) ds

/-- The text of a program, its nodes separated by empty lines. -/
def print (p : Program) : String := String.intercalate "\n" (printNodes 0 p.nodes)

end Program

end ReactiveScript

import NotebookCell.Scope.Binding
import NotebookCell.Scope.Host
import NotebookCell.Tree.Defect

/-!
# What a cell declares

The names declared at the top level of a program are the outputs of its cell. They may not be names
of the host.
-/

namespace NotebookCell.Scope

open NotebookCell.Tree NotebookCell.Text

/-- The nodes that name what a statement declares. -/
def declaredBy (statement : Node) : List Node :=
  match statement.kind with
  | .variableDeclaration | .lexicalDeclaration =>
    (statement.namedChildren.filter (·.kind == .variableDeclarator)).flatMap (bindingsOf · .name)
  | .functionDeclaration | .generatorFunctionDeclaration | .classDeclaration =>
    (statement.child? .name).toList
  | .importStatement => importLocals statement
  | _ => []

/-- Whether a cell may not declare a name. -/
def isReserved (name : String) : Bool :=
  isHostName name || name == "arguments"

/-- The nodes that name what a program declares at its top level, in the order of the text. -/
def declarations (name : Node → String) (offsets : Offsets) (program : Node) :
    Except Fault (List Node) :=
  let declared := program.namedChildren.flatMap declaredBy
  match declared.find? fun node => isReserved (name node) with
  | some node =>
    .error ((Cause.redefinesGlobal (name node)).fault offsets.source (node.startIn offsets))
  | none => .ok declared

end NotebookCell.Scope

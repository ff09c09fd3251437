import NotebookCell.Scope.Assignment
import NotebookCell.Scope.Declaration
import NotebookCell.Scope.Suspension
import NotebookCell.Script.Parse

/-!
# Script cells

A cell is first read as a single expression, inside parentheses so that an opening brace begins an
object. If that fails, or if the expression would be a declaration at the start of a statement, the
cell is read as a program.
-/

namespace NotebookCell.Script

open NotebookCell.Tree NotebookCell.Text NotebookCell.Scope

/-! ## Single expressions -/

/-- The text that is parsed to read a source as one expression. The line break ends a comment at
the end of the source. -/
def enclose (source : List Char) : List Char :=
  '(' :: source ++ ['\n', ')']

/-- The only statement of a program, comments aside. -/
def soleStatement? (root : Node) : Option Node :=
  match root.namedChildren.filter (·.kind != .comment) with
  | [statement] => some statement
  | _ => none

/-- The expression of a parsed enclosed source, if the enclosing parentheses belong together and
hold an expression. -/
def enclosedExpression? (length : Nat) (root : Node) : Option Node := do
  let statement ← soleStatement? root
  guard (statement.kind == .expressionStatement)
  let group ← statement.firstExpression?
  guard (group.kind == .parenthesizedExpression && group.start == 0 && group.stop == length)
  group.firstExpression?

/-- A source that was parsed as one expression. -/
structure ParsedExpression where
  root : Node
  expression : Node
  offsets : Offsets

/-- Reads a source as exactly one expression. -/
def parseExpression (source : List Char) : Except Problem ParsedExpression :=
  let text := enclose source
  match parse? text with
  | none => .error .ungrammatical
  | some root =>
    match enclosedExpression? (byteLength text) root with
    | some expression => .ok ⟨root, expression, .ofSource source 1⟩
    | none => .error (.fault (Cause.severalExpressions.fault source 0))

/-! ## Cells -/

/-- A node's own text in the text that was parsed. -/
def nameIn (text : List Char) (node : Node) : String :=
  String.ofList (byteSlice text node.start node.stop)

/-- An analysed script cell. -/
structure Cell where
  source : List Char
  /-- The text that was parsed; nodes are spans of it. -/
  text : List Char
  /-- The program, or the expression of a cell that is one. -/
  body : Node
  isExpression : Bool
  offsets : Offsets
  references : List Site
  /-- What a program declares; an expression declares nothing. -/
  declarations : List Node
  isAsync : Bool
  isGenerator : Bool

/-- The first place where the word `let` is used as a name. In a notebook it never is one. -/
def letName? (text : List Char) (root : Node) : Option Node :=
  root.walkAll.find? fun node => node.kind == .identifier && nameIn text node == "let"

/-- Whether an expression is a named function or class, which a cell declares. -/
def isNamedDefinition (node : Node) : Bool :=
  [.functionExpression, .functionWord, .generatorFunction, .classExpression].contains node.kind &&
    (node.child? .name).isSome

/-- The expression that a cell consists of, if it is one. -/
def cellExpression? (source : List Char) : Option Node :=
  match parseExpression source with
  | .ok parsed =>
    let node := parsed.expression
    if isNamedDefinition node || (letName? (enclose source) node).isSome then none else some node
  | .error _ => none

/-- The program that a cell consists of. -/
def cellProgram (source : List Char) : Except Problem Node :=
  match parse? source with
  | none => .error .ungrammatical
  | some root =>
    match letName? source root with
    | some node =>
      let pos := node.startIn (.ofSource source 0)
      .error (.fault ((Cause.unexpected "let").fault source pos))
    | none => .ok root

/-- Analyses the tree of a cell. -/
def analyse (source text : List Char) (body : Node) (isExpression : Bool) (offsets : Offsets) :
    Except Problem Cell := do
  let name := nameIn text
  let references := freeReferences name body
  if let some fault := assignmentFault? name offsets body references then
    throw (.fault fault)
  let declarations ←
    if isExpression then pure []
    else match declarations name offsets body with
      | .ok nodes => pure nodes
      | .error fault => throw (.fault fault)
  return { source, text, body, isExpression, offsets, references, declarations
           isAsync := !(awaits body).isEmpty
           isGenerator := !(yields body).isEmpty }

/-- Reads and analyses a cell. -/
def parseCell (source : List Char) : Except Problem Cell :=
  match cellExpression? source with
  | some expression => analyse source (enclose source) expression true (.ofSource source 1)
  | none => do
    let program ← cellProgram source
    analyse source source program false (.ofSource source 0)

/-- The text of a node of the cell. -/
def Cell.name (cell : Cell) (node : Node) : String := nameIn cell.text node

end NotebookCell.Script

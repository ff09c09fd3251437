import NotebookCell.Editing.Buffer
import NotebookCell.Script.Cell

/-!
# Imports inside a function

Import statements cannot stand in a function body. Those at the top level of a program are taken out
and become one awaited dynamic import in front of it: `import {a as b} from "mod"` becomes
`const {a: b} = await import("mod")`.

Specifiers of local modules can be resolved against the address of the document.
-/

namespace NotebookCell.Body

open NotebookCell.Tree NotebookCell.Text NotebookCell.Editing NotebookCell.Script

/-- What is missing in an import statement that cannot be replaced. -/
inductive ImportDefect where
  | noSource
  | noImportedName
  | noNamespaceName
deriving DecidableEq, Repr

/-! ## Specifiers -/

/-- Whether a quoted module specifier is a path. -/
def isLocalSpecifier (specifier : List Char) : Bool :=
  let path := (specifier.drop 1).dropLast
  ["./", "../", "/"].any fun start => start.toList.isPrefixOf path

/-- What is put around an expression to make an address of it, relative to `base`. -/
def urlStart : List Char := "new URL(".toList

/-- The end of what is put around an expression to make an address of it. -/
def urlEnd (base : String) : List Char := (", " ++ base ++ ").href").toList

/-- The address that local modules are relative to. -/
def documentBase : String := "document.baseURI"

/-- The argument of a dynamic import in place of a specifier. -/
def resolveSpecifier (resolve : Bool) (specifier : List Char) : List Char :=
  if resolve && isLocalSpecifier specifier then urlStart ++ specifier ++ urlEnd documentBase
  else specifier

/-! ## Import statements -/

/-- Texts with a comma and a space between them. -/
def commaSeparated (texts : List (List Char)) : List Char :=
  (texts.intersperse ", ".toList).flatten

section

variable (name : Node → String) (offsets : Offsets)

/-- The member of an object pattern that binds what an import specifier binds. -/
def specifierMember (specifier : Node) : Except ImportDefect (List Char) :=
  match specifier.child? .name with
  | none => .error .noImportedName
  | some imported =>
    let key := imported.textIn offsets
    match specifier.child? .localName with
    | none => .ok key
    | some newName =>
      let local' := (name newName).toList
      .ok (if local' == key then key else key ++ ": ".toList ++ local')

/-- The members of an object pattern that bind what a part of an import clause binds. -/
def clauseMembers (part : Node) : Except ImportDefect (List (List Char)) :=
  match part.kind with
  | .identifier => .ok [("default: " ++ name part).toList]
  | .namedImports =>
    (part.namedChildren.filter (·.kind == .importSpecifier)).mapM (specifierMember name offsets)
  | _ => .ok []

/-- The pattern that binds what an import statement binds, when matched with the module. -/
def importPattern (statement : Node) : Except ImportDefect (List Char) := do
  match statement.namedChildren.find? (·.kind == .importClause) with
  | none => return ['\x7b', '\x7d']
  | some clause =>
    match clause.namedChildren.find? (·.kind == .namespaceImport) with
    | some part =>
      match part.namedChildren.find? (·.kind == .identifier) with
      | some id => return (name id).toList
      | none => throw .noNamespaceName
    | none =>
      let members ← clause.namedChildren.mapM (clauseMembers name offsets)
      return '\x7b' :: commaSeparated members.flatten ++ ['\x7d']

/-- The dynamic import of the module that an import statement names. -/
def importCall (resolve : Bool) (statement : Node) : Except ImportDefect (List Char) :=
  match statement.child? .source with
  | none => .error .noSource
  | some source =>
    .ok ("import(".toList ++ resolveSpecifier resolve (source.textIn offsets) ++ [')'])

/-- The range to delete for an import statement. A line break behind it goes with it unless only
white space follows. -/
def removedRange (statement : Node) : Nat × Nat :=
  let stop := statement.stopIn offsets
  let rest := offsets.source.drop stop
  let broken := rest.head? == some '\n' && !(trim (rest.drop 1)).isEmpty
  (statement.startIn offsets, if broken then stop + 1 else stop)

/-- The deletion of an import statement. -/
def removal (statement : Node) : Operation :=
  let (start, stop) := removedRange offsets statement
  .delete start stop

end

/-- The statement that imports modules in place of import statements. -/
def prelude : List (List Char × List Char) → List Char
  | [] => []
  | [(pattern, call)] => "const ".toList ++ pattern ++ " = await ".toList ++ call ++ ";\n".toList
  | imports =>
    "const [".toList ++ commaSeparated (imports.map (·.1)) ++ "] = await Promise.all([".toList ++
      commaSeparated (imports.map (·.2)) ++ "]);\n".toList

/-- Edits, and what is wrong with the tree they were made for, if anything; the edits before the
defect are still made. -/
structure Plan where
  operations : List Operation
  defect : Option ImportDefect := none

/-- The edits for import statements, given what was found for those before them. -/
def planImports (name : Node → String) (offsets : Offsets) (resolve : Bool)
    (found : List (List Char × List Char)) : List Node → Plan
  | [] =>
    if found.isEmpty then ⟨[], none⟩ else ⟨[.insertLeft 0 (prelude found)], none⟩
  | statement :: statements =>
    let remove := removal offsets statement
    match importPattern name offsets statement, importCall offsets resolve statement with
    | .ok pattern, .ok call =>
      let rest := planImports name offsets resolve (found ++ [(pattern, call)]) statements
      { rest with operations := remove :: rest.operations }
    | .error defect, _ => ⟨[remove], some defect⟩
    | _, .error defect => ⟨[remove], some defect⟩

/-- The import statements at the top level of a program. -/
def topImports (body : Node) : List Node :=
  body.namedChildren.filter (·.kind == .importStatement)

/-- The edits that replace the import statements at the top level of a cell. -/
def importStatements (cell : Cell) (resolve : Bool) : Plan :=
  if cell.isExpression then ⟨[], none⟩
  else planImports cell.name cell.offsets resolve [] (topImports cell.body)

/-- Whether there is an import statement anywhere below a node. -/
def hasImportStatement (body : Node) : Bool :=
  body.walkAll.any (·.kind == .importStatement)

/-! ## Dynamic imports -/

/-- The edits that make an address of an expression. -/
def wrapInUrl (offsets : Offsets) (base : String) (node : Node) : List Operation :=
  [.insertLeft (node.startIn offsets) urlStart, .insertRight (node.stopIn offsets) (urlEnd base)]

/-- The local specifier of a dynamic import, if the node is one. -/
def localImport? (offsets : Offsets) (node : Node) : Option Node := do
  guard (node.kind == .callExpression)
  let callee ← node.child? .function
  let arguments ← node.child? .arguments
  guard (callee.kind == .importWord)
  let specifier ← arguments.firstExpression?
  guard (specifier.kind == .string && isLocalSpecifier (specifier.textIn offsets))
  return specifier

/-- The edits that resolve the local specifiers of dynamic imports. -/
def importCalls (offsets : Offsets) (body : Node) : List Operation :=
  (body.walkAll.filterMap (localImport? offsets)).flatMap (wrapInUrl offsets documentBase)

end NotebookCell.Body

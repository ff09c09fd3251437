import NotebookCell.Scope.Binding
import NotebookCell.Scope.Host

/-!
# Free references

A name in a cell is free if no scope around it declares it. A first pass over the tree collects what
each scope declares, a second one selects the names that no scope above them declares. Free names
become the inputs of a cell.
-/

namespace NotebookCell.Scope

open NotebookCell.Tree

/-! ## Scopes -/

/-- The scopes of function-wide declarations. -/
def isFunctionScope (kind : Kind) : Bool :=
  kind.isFunction || kind == .program

/-- The scopes of block-wide declarations. -/
def isBlockScope (kind : Kind) : Bool :=
  isFunctionScope kind ||
    [.statementBlock, .forStatement, .forInStatement, .switchStatement].contains kind

/-- A name declared in the scope at a path. -/
structure Local where
  scope : List Nat
  name : String
deriving DecidableEq, Repr

section

variable (name : Node → String)

/-- Declarations of nodes in one scope. -/
def declareAll (scope : List Nat) (nodes : List Node) : List Local :=
  nodes.map fun node => ⟨scope, name node⟩

/-- What a function declares in its own scope: its parameters, its own name if it is an expression,
and `arguments` unless it is an arrow function. -/
def functionLocals (site : Site) : List Local :=
  let node := site.node
  let declaration := [Kind.functionDeclaration, .generatorFunctionDeclaration,
    .methodDefinition].contains node.kind
  declareAll name site.path (bindingsOf node .parameters) ++
    declareAll name site.path (bindingsOf node .parameter) ++
    (if declaration then [] else declareAll name site.path (node.child? .name).toList) ++
    (if node.kind == .arrowFunction then [] else [⟨site.path, "arguments"⟩])

/-- What the variables of a declaration declare in a scope. -/
def declaratorLocals (scope : List Nat) (node : Node) : List Local :=
  (node.namedChildren.filter (·.kind == .variableDeclarator)).flatMap fun declarator =>
    declareAll name scope (bindingsOf declarator .name)

/-- What a node declares, and in which scopes. -/
def locals (site : Site) : List Local :=
  let node := site.node
  match node.kind with
  | .variableDeclaration => declaratorLocals name (site.nearest isFunctionScope) node
  | .lexicalDeclaration => declaratorLocals name (site.nearest isBlockScope) node
  | .forInStatement =>
    match node.child? .kind with
    | some keyword =>
      let scope := if keyword.kind == .token "var" then site.nearest isFunctionScope else site.path
      declareAll name scope (bindingsOf node .left)
    | none => []
  | .functionDeclaration | .generatorFunctionDeclaration =>
    declareAll name (site.nearest isFunctionScope) (node.child? .name).toList ++
      functionLocals name site
  | .functionExpression | .functionWord | .generatorFunction | .arrowFunction
  | .methodDefinition => functionLocals name site
  | .classDeclaration => declareAll name (site.nearest isBlockScope) (node.child? .name).toList
  | .classExpression => declareAll name site.path (node.child? .name).toList
  | .catchClause => declareAll name site.path (bindingsOf node .parameter)
  | .importStatement => declareAll name [] (importLocals node)
  | _ => []

/-! ## References -/

/-- The nodes that can refer to a variable. -/
def isReferenceKind (kind : Kind) : Bool :=
  [.identifier, .shorthandPropertyIdentifier, .shorthandPropertyIdentifierPattern].contains kind

/-- The nodes inside of which names belong to a module. -/
def namesModuleBindings (kind : Kind) : Bool :=
  [.importStatement, .exportClause, .exportSpecifier].contains kind

/-- Whether one of the declarations binds a name at a site. -/
def isBound (declared : List Local) (site : Site) (name : String) : Bool :=
  declared.any fun binding => binding.name == name && site.isBelow binding.scope

/-- Whether a site refers to a variable that none of the given declarations binds. -/
def isFree (declared : List Local) (site : Site) : Bool :=
  isReferenceKind site.node.kind &&
    !(site.ancestors.any fun node => namesModuleBindings node.kind) &&
    !isBound declared site (name site.node)

/-- The free references below `root` that `select` selects, in the order of the text. -/
def references (root : Node) (select : Node → Bool) : List Site :=
  let sites := root.sites
  let declared := sites.flatMap (locals name)
  sites.filter fun site => isFree name declared site && select site.node

/-- The free references below `root` that are not names of the host. -/
def freeReferences (root : Node) : List Site :=
  references name root fun node => !isHostName (name node)

end

end NotebookCell.Scope

import NotebookCell.Tree.Walk

/-!
# What patterns and imports bind

`bindings` are the names that a declaration pattern introduces, `leaves` the places that an
assignment to a pattern writes to. Neither looks into keys, default values, or the objects of
members.
-/

namespace NotebookCell.Scope

open NotebookCell.Tree

/-! ## Declarations -/

mutual

/-- The nodes that name what a pattern declares. -/
def bindings (node : Node) : List Node :=
  match node with
  | ⟨kind, start, stop, named, missing, field, children⟩ =>
    match kind with
    | .identifier | .shorthandPropertyIdentifierPattern =>
      [⟨kind, start, stop, named, missing, field, children⟩]
    | .pairPattern => bindingsAs .value children
    | .assignmentPattern | .objectAssignmentPattern => bindingsAs .left children
    | .objectPattern | .arrayPattern | .restPattern | .formalParameters => bindingsAll children
    | _ => []

/-- What the first of the nodes in a given role declares. -/
def bindingsAs (field : Field) (nodes : List Node) : List Node :=
  match nodes with
  | [] => []
  | node :: nodes =>
    if node.field == some field then bindings node else bindingsAs field nodes

/-- What all named ones of the nodes declare. -/
def bindingsAll (nodes : List Node) : List Node :=
  match nodes with
  | [] => []
  | node :: nodes => (if node.named then bindings node else []) ++ bindingsAll nodes

end

/-- What the child of a node in a given role declares. -/
def bindingsOf (node : Node) (field : Field) : List Node :=
  ((node.child? field).map bindings).getD []

/-! ## Imports -/

/-- The name that an import specifier introduces, if it is one. -/
def specifierLocal? (specifier : Node) : Option Node :=
  if specifier.kind != .importSpecifier then none
  else ((specifier.child? .localName) <|> (specifier.child? .name)).filter (·.kind == .identifier)

/-- The names that a part of an import clause introduces. -/
def clauseLocals (part : Node) : List Node :=
  match part.kind with
  | .identifier => [part]
  | .namespaceImport => part.namedChildren.filter (·.kind == .identifier)
  | .namedImports => part.namedChildren.filterMap specifierLocal?
  | _ => []

/-- The names that an import statement introduces. -/
def importLocals (statement : Node) : List Node :=
  (statement.namedChildren.filter (·.kind == .importClause)).flatMap fun clause =>
    clause.namedChildren.flatMap clauseLocals

/-! ## Assignments -/

mutual

/-- The sites that an assignment to the node at `path` writes to by name. -/
def leaves (node : Node) (path : List Nat) : List (Node × List Nat) :=
  match node with
  | ⟨kind, start, stop, named, missing, field, children⟩ =>
    match kind with
    | .identifier | .shorthandPropertyIdentifier | .shorthandPropertyIdentifierPattern
    | .undefinedWord => [(⟨kind, start, stop, named, missing, field, children⟩, path)]
    | .pairPattern | .pair => leavesAs .value children 0 path
    | .assignmentPattern | .objectAssignmentPattern => leavesAs .left children 0 path
    | .objectPattern | .arrayPattern | .restPattern | .object | .array | .spreadElement
    | .parenthesizedExpression => leavesAll children 0 path
    | _ => []

/-- The leaves of the first of the nodes in a given role; the nodes are children of the one at
`path`, from position `index` on. -/
def leavesAs (field : Field) (nodes : List Node) (index : Nat) (path : List Nat) :
    List (Node × List Nat) :=
  match nodes with
  | [] => []
  | node :: nodes =>
    if node.field == some field then leaves node (index :: path)
    else leavesAs field nodes (index + 1) path

/-- The leaves of all named ones of the nodes. -/
def leavesAll (nodes : List Node) (index : Nat) (path : List Nat) : List (Node × List Nat) :=
  match nodes with
  | [] => []
  | node :: nodes =>
    (if node.named then leaves node (index :: path) else []) ++ leavesAll nodes (index + 1) path

end

end NotebookCell.Scope

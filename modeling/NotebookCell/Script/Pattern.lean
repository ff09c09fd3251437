import NotebookCell.Tree.Node

/-!
# Patterns out of expressions

Array and object literals are read before it is known whether they are values or assignment
targets. `asPattern?` turns the literal reading into the pattern reading once an `=`, an arrow or a
declaration asks for it. A default inside an object literal makes sense only in a pattern, so one
that is left over in a finished tree (`hasStrayDefault`) is an error.
-/

namespace NotebookCell.Script

open NotebookCell.Tree

/-- What an assignment may have on its left inside a pattern. -/
def isPlainTarget (kind : Kind) : Bool :=
  [.identifier, .undefinedWord, .memberExpression, .subscriptExpression, .objectPattern,
    .arrayPattern].contains kind

mutual

/-- The pattern reading of an element of a literal, if it has one. -/
def asPattern? (node : Node) : Option Node :=
  match node with
  | ⟨kind, start, stop, named, missing, field, children⟩ =>
    let rebuild (kind : Kind) (children : List Node) : Node :=
      ⟨kind, start, stop, named, missing, field, children⟩
    match kind with
    | .identifier | .undefinedWord | .memberExpression | .subscriptExpression
    | .objectPattern | .arrayPattern | .restPattern | .assignmentPattern
    | .objectAssignmentPattern | .comment | .htmlComment => some (rebuild kind children)
    | .shorthandPropertyIdentifier => some (rebuild .shorthandPropertyIdentifierPattern children)
    | .object => (asPatterns? children).map (rebuild .objectPattern)
    | .array => (asPatterns? children).map (rebuild .arrayPattern)
    | .spreadElement =>
      (asPatterns? children).bind fun children =>
        if children.any (·.kind == .assignmentPattern) then none
        else some (rebuild .restPattern children)
    | .pair => (valuesAsPatterns? children).map (rebuild .pairPattern)
    | .assignmentExpression =>
      if children.any fun child => child.field == some .left && isPlainTarget child.kind then
        some (rebuild .assignmentPattern children)
      else none
    | _ => none

/-- The pattern reading of every element. -/
def asPatterns? (nodes : List Node) : Option (List Node) :=
  match nodes with
  | [] => some []
  | node :: nodes =>
    match asPattern? node, asPatterns? nodes with
    | some node, some nodes => some (node :: nodes)
    | _, _ => none

/-- The pattern reading of the children in the role of a value; keys stay as they are. -/
def valuesAsPatterns? (nodes : List Node) : Option (List Node) :=
  match nodes with
  | [] => some []
  | node :: nodes =>
    match if node.field == some .value then asPattern? node else some node,
      valuesAsPatterns? nodes with
    | some node, some nodes => some (node :: nodes)
    | _, _ => none

end

mutual

/-- Whether an object literal in the tree holds a default for a name, or a key whose value gathers
the rest. -/
def hasStrayDefault (node : Node) : Bool :=
  match node with
  | ⟨kind, _, _, _, _, _, children⟩ =>
    (kind == .object && children.any (·.kind == .objectAssignmentPattern)) ||
      (kind == .pair && children.any (·.kind == .spreadElement)) || anyStrayDefault children

/-- Whether one of the trees has a stray default. -/
def anyStrayDefault (nodes : List Node) : Bool :=
  match nodes with
  | [] => false
  | node :: nodes => hasStrayDefault node || anyStrayDefault nodes

end

end NotebookCell.Script

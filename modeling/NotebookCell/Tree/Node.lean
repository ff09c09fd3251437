import NotebookCell.Tree.Kind

/-!
# Syntax trees

A `Node` is a kind, a byte span in the parsed text, the role it plays in its parent and its
children in source order. Named nodes are the constructs; anonymous ones are the punctuation and
keywords between them. A missing node stands for something the grammar expected and did not find.
-/

namespace NotebookCell.Tree

/-- The role of a child in its parent. -/
inductive Field where
  | name | value | left | kind | localName | source | function | arguments | argument
  | parameters | parameter
  | other (label : String)
deriving DecidableEq, Repr, Inhabited

/-- The role with a given written label. -/
def Field.ofLabel : String → Field
  | "name" => .name
  | "value" => .value
  | "left" => .left
  | "kind" => .kind
  | "alias" => .localName
  | "source" => .source
  | "function" => .function
  | "arguments" => .arguments
  | "argument" => .argument
  | "parameters" => .parameters
  | "parameter" => .parameter
  | label => .other label

/-- A syntax node; `start` and `stop` are byte offsets into the parsed text. -/
structure Node where
  kind : Kind
  start : Nat
  stop : Nat
  named : Bool := true
  missing : Bool := false
  field : Option Field := none
  children : List Node := []
deriving Repr, Inhabited

namespace Node

/-- The children that are constructs. -/
def namedChildren (node : Node) : List Node :=
  node.children.filter (·.named)

/-- The first child in a given role. -/
def child? (node : Node) (field : Field) : Option Node :=
  node.children.find? (·.field == some field)

/-- The first named child that is not a comment. -/
def firstExpression? (node : Node) : Option Node :=
  node.namedChildren.find? (·.kind != .comment)

/-- Whether the node is a comment, in either spelling. -/
def isRemark (node : Node) : Bool :=
  node.kind == .comment || node.kind == .htmlComment

/-- The same node in the role `field`. -/
def as (node : Node) (field : Field) : Node :=
  { node with field := some field }

end Node

end NotebookCell.Tree

import NotebookCell.Tree.Node

/-!
# Walks over a tree

Walks visit a node before its named children, and the children in source order. They keep the nodes
still to be visited in a list, so that a deep tree needs no deep recursion. `Site` is a node
together with the way to it; two nodes of a tree are the same one if their paths are equal.
-/

namespace NotebookCell.Tree

namespace Node

mutual

/-- The number of nodes in a tree. -/
def size : Node → Nat
  | ⟨_, _, _, _, _, _, children⟩ => 1 + sizes children

/-- The number of nodes in several trees. -/
def sizes : List Node → Nat
  | [] => 0
  | node :: nodes => size node + sizes nodes

end

/-- Visits the nodes of a list and what is below them, at most `bound` nodes in all. -/
def visit (skip : Node → Bool) : (bound : Nat) → List Node → List Node
  | 0, _ => []
  | _ + 1, [] => []
  | bound + 1, node :: rest =>
    node :: visit skip bound ((node.namedChildren.filter fun child => !skip child) ++ rest)

/-- The node and its named descendants, without those that `skip` selects and what is below them.
The node itself is always visited. -/
def walk (node : Node) (skip : Node → Bool) : List Node :=
  visit skip node.size [node]

/-- The node and all its named descendants. -/
def walkAll (node : Node) : List Node :=
  node.walk fun _ => false

end Node

/-- A node in a tree. `path` holds the positions of the node and its ancestors among their siblings,
from the node upwards; `ancestors` are the nodes above it, the nearest first. -/
structure Site where
  node : Node
  path : List Nat := []
  ancestors : List Node := []

namespace Site

/-- The children of a site. -/
def children (site : Site) : List Site :=
  site.node.children.zipIdx.map fun (child, index) =>
    ⟨child, index :: site.path, site.node :: site.ancestors⟩

/-- The children that are constructs. -/
def namedChildren (site : Site) : List Site :=
  site.children.filter (·.node.named)

/-- The first child in a given role. -/
def child? (site : Site) (field : Field) : Option Site :=
  site.children.find? (·.node.field == some field)

/-- Visits the sites of a list and what is below them, at most `bound` sites in all. -/
def visit : (bound : Nat) → List Site → List Site
  | 0, _ => []
  | _ + 1, [] => []
  | bound + 1, site :: rest => site :: visit bound (site.namedChildren ++ rest)

/-- The path of the nearest ancestor of the given kinds; of the root where there is none. -/
def nearest (site : Site) (isScope : Kind → Bool) : List Nat :=
  go site.ancestors (site.path.drop 1)
where
  go : List Node → List Nat → List Nat
    | [], _ => []
    | node :: nodes, path => if isScope node.kind then path else go nodes (path.drop 1)

/-- Whether a path leads to an ancestor of the site. -/
def isBelow (site : Site) (path : List Nat) : Bool :=
  path.length < site.path.length && path.isSuffixOf site.path

end Site

/-- Every named node below `root`, and `root` itself, with the way to it. -/
def Node.sites (root : Node) : List Site :=
  Site.visit root.size [⟨root, [], []⟩]

/-- The functions: nodes with a body and parameters of their own. -/
def Kind.isFunction : Kind → Bool
  | .functionDeclaration | .generatorFunctionDeclaration | .functionExpression | .functionWord
  | .generatorFunction | .arrowFunction | .methodDefinition => true
  | _ => false

end NotebookCell.Tree

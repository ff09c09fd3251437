import NotebookCell.Fault
import NotebookCell.Text.Offsets
import NotebookCell.Tree.Node

/-!
# Defective trees

A tree with `error` nodes or missing nodes stands for a text that is not a script. The first such
node, in the order of the text, says what is wrong and where.
-/

namespace NotebookCell.Tree

open NotebookCell.Text

namespace Node

mutual

/-- Whether an error or a missing node is in the tree. -/
def isDefective (node : Node) : Bool :=
  match node with
  | ⟨kind, _, _, _, missing, _, children⟩ => kind == .error || missing || anyDefective children

/-- Whether one of the trees is defective. -/
def anyDefective (nodes : List Node) : Bool :=
  match nodes with
  | [] => false
  | node :: nodes => isDefective node || anyDefective nodes

end

mutual

/-- The node that is reached by going down into the first defective child each time: an error or
a missing node, or a node without a defective child. -/
def descend (node : Node) : Node :=
  match node with
  | ⟨kind, start, stop, named, missing, field, children⟩ =>
    if kind == .error || missing then ⟨kind, start, stop, named, missing, field, children⟩
    else (firstDefectIn? children).getD ⟨kind, start, stop, named, missing, field, children⟩

/-- What is reached from the first of the trees that is defective. -/
def firstDefectIn? (nodes : List Node) : Option Node :=
  match nodes with
  | [] => none
  | node :: nodes => if isDefective node then some (descend node) else firstDefectIn? nodes

end

/-- The defect of a tree, if the root is one or has a defective child. -/
def firstDefect? (root : Node) : Option Node :=
  if root.kind == .error || root.missing then some root else firstDefectIn? root.children

/-- The node reached by going down into the first child each time. -/
def firstLeaf (node : Node) : Node :=
  match node with
  | ⟨kind, start, stop, named, missing, field, []⟩ => ⟨kind, start, stop, named, missing, field, []⟩
  | ⟨_, _, _, _, _, _, child :: _⟩ => firstLeaf child

/-- The offset in the source where the node starts. -/
def startIn (node : Node) (offsets : Offsets) : Nat := offsets.char node.start

/-- The offset in the source where the node ends. -/
def stopIn (node : Node) (offsets : Offsets) : Nat := offsets.char node.stop

/-- The part of the source that the node covers. -/
def textIn (node : Node) (offsets : Offsets) : List Char := offsets.slice node.start node.stop

/-- What is wrong with the text of a defective tree: something is missing, the text ends too early,
or the first token of the defect should not be there. -/
def fault (root : Node) (offsets : Offsets) : Fault :=
  let node := root.firstDefect?.getD root
  let pos := node.startIn offsets
  let leaf := node.firstLeaf.textIn offsets
  let fragment := if leaf.isEmpty then node.textIn offsets else leaf
  let cause : Cause :=
    if node.missing then .expected node.kind.name
    else if fragment.isEmpty || pos ≥ offsets.source.length then .endOfInput
    else .unexpected (String.ofList fragment)
  cause.fault offsets.source pos

end Node

end NotebookCell.Tree

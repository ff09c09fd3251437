import NotebookCell.Tree.Walk

/-!
# Where a cell suspends

An `await` makes a cell asynchronous and a `yield` makes it a generator, unless it stands in
a function inside the cell.
-/

namespace NotebookCell.Scope

open NotebookCell.Tree

/-- Whether a node is a loop that waits for its elements. -/
def isAwaitingLoop (node : Node) : Bool :=
  node.kind == .forInStatement && node.children.any (·.kind == .awaitWord)

/-- The nodes below `root` that are in no function; none at all if `root` is one. -/
def outsideFunctions (root : Node) : List Node :=
  if root.kind.isFunction then [] else root.walk (·.kind.isFunction)

/-- The points where a cell waits. -/
def awaits (root : Node) : List Node :=
  (outsideFunctions root).filter fun node =>
    node.kind == .awaitExpression || isAwaitingLoop node

/-- The points where a cell yields. -/
def yields (root : Node) : List Node :=
  (outsideFunctions root).filter (·.kind == .yieldExpression)

end NotebookCell.Scope

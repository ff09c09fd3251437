import NotebookCell.Scope.Reference
import NotebookCell.Tree.Defect

/-!
# Assignments to what a cell does not own

A free name belongs to another cell and the host's names belong to the host. A cell may assign
neither, not even inside a function.
-/

namespace NotebookCell.Scope

open NotebookCell.Tree NotebookCell.Text

/-- What a node writes to, if it is an assignment. A loop that declares its variable does not
assign it. -/
def target? (site : Site) : Option Site :=
  match site.node.kind with
  | .assignmentExpression | .augmentedAssignmentExpression | .assignmentPattern
  | .objectAssignmentPattern => site.child? .left
  | .updateExpression => site.child? .argument
  | .forInStatement => if (site.child? .kind).isNone then site.child? .left else none
  | _ => none

/-- The leaves of all assignments below `root`, assignment by assignment. -/
def assignedLeaves (root : Node) : List (Node × List Nat) :=
  (root.sites.filterMap target?).flatMap fun target => leaves target.node target.path

/-- Why a leaf may not be assigned, if it may not. `external` are the paths of the references to
other cells. -/
def violation? (name : Node → String) (external : List (List Nat)) (leaf : Node × List Nat) :
    Option Cause :=
  if external.contains leaf.2 then some (.assignsExternal (name leaf.1))
  else if isHostName (name leaf.1) then some (.assignsGlobal (name leaf.1))
  else none

/-- The fault of the first assignment below `root` to something that the cell does not own. -/
def assignmentFault? (name : Node → String) (offsets : Offsets) (root : Node)
    (references : List Site) : Option Fault :=
  let external := references.map (·.path)
  (assignedLeaves root).findSome? fun leaf =>
    (violation? name external leaf).map fun cause =>
      cause.fault offsets.source (leaf.1.startIn offsets)

end NotebookCell.Scope

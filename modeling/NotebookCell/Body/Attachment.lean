import NotebookCell.Body.Import

/-!
# File attachments

Names of attached files can be resolved relative to the module that a cell ends up in. Only calls of
the notebook's own `FileAttachment` are meant, not of something that the cell binds to this name.
-/

namespace NotebookCell.Body

open NotebookCell.Tree NotebookCell.Text NotebookCell.Editing NotebookCell.Scope

/-- The address that attached files are relative to. -/
def moduleBase : String := "import.meta.url"

/-- The name through which files are attached. -/
def attachmentName : String := "FileAttachment"

/-- The first argument of a call whose callee is at one of the given paths, if the site is one. -/
def attachedName? (callees : List (List Nat)) (site : Site) : Option Node := do
  guard (site.node.kind == .callExpression)
  let callee ← site.child? .function
  guard (callees.contains callee.path)
  let arguments ← site.node.child? .arguments
  guard (arguments.kind == .arguments)
  arguments.firstExpression?

/-- The edits that resolve the names of attached files. -/
def attachments (name : Node → String) (offsets : Offsets) (body : Node) : List Operation :=
  let callees := (references name body fun node => name node == attachmentName).map (·.path)
  if callees.isEmpty then []
  else (body.sites.filterMap (attachedName? callees)).flatMap (wrapInUrl offsets moduleBase)

end NotebookCell.Body

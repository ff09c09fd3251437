import NotebookCell.Tree.Kind
import NotebookCell.Tree.Node
import NotebookCell.Text.Blank
import NotebookCell.Text.Position
import NotebookCell.Text.Offsets
import NotebookCell.Text.Newline
import NotebookCell.Text.Uppercase
import NotebookCell.Text.Json
import NotebookCell.Fault
import NotebookCell.Tree.Walk
import NotebookCell.Tree.Defect
import NotebookCell.Editing.Buffer
import NotebookCell.IdCounter
import NotebookCell.Scope.Host
import NotebookCell.Scope.Binding
import NotebookCell.Scope.Reference
import NotebookCell.Scope.Assignment
import NotebookCell.Scope.Suspension
import NotebookCell.Scope.Declaration
import NotebookCell.Script.Character
import NotebookCell.Script.Cursor
import NotebookCell.Script.Trivia
import NotebookCell.Script.Semicolon
import NotebookCell.Script.Word
import NotebookCell.Script.Literal
import NotebookCell.Script.Pattern
import NotebookCell.Script.Grammar.Basic
import NotebookCell.Script.Grammar.Function
import NotebookCell.Script.Grammar.Member
import NotebookCell.Script.Grammar.Markup
import NotebookCell.Script.Grammar.Operand
import NotebookCell.Script.Grammar.Expression
import NotebookCell.Script.Grammar.Declaration
import NotebookCell.Script.Grammar.Module
import NotebookCell.Script.Grammar.Loop
import NotebookCell.Script.Grammar.Statement
import NotebookCell.Script.Parse
import NotebookCell.Script.Cell
import NotebookCell.Body.Import
import NotebookCell.Body.Attachment
import NotebookCell.Template.Literal
import NotebookCell.Template.Escape
import NotebookCell.Path
import NotebookCell.Mode
import NotebookCell.Transpile
import NotebookCell.Settings
import NotebookCell.Command.Arguments
import NotebookCell.Command.Table
import NotebookCell.Command.Workspace
import NotebookCell.Command.Run
import NotebookCell.Main
import NotebookCell.Proofs.Tree.Walk
import NotebookCell.Proofs.Script.Cell
import NotebookCell.Proofs.Scope.Interface
import NotebookCell.Proofs.Editing.Text
import NotebookCell.Proofs.Template.Content
import NotebookCell.Proofs.Template.Cooked
import NotebookCell.Proofs.Editing.Trim
import NotebookCell.Proofs.Body.Emission
import NotebookCell.Proofs.Tree.Alike
import NotebookCell.Proofs.Scope.Occurrence
import NotebookCell.Proofs.Scope.Part
import NotebookCell.Proofs.Script.Literal
import NotebookCell.Proofs.Script.Name
import NotebookCell.Proofs.Script.Operand
import NotebookCell.Proofs.Script.Tagged
import NotebookCell.Proofs.Script.Program
import NotebookCell.Proofs.Scope.Tagged
import NotebookCell.Proofs.Template.Raw
import NotebookCell.Proofs.Template.Embedded
import NotebookCell.Proofs.Editing.Run
import NotebookCell.Proofs.Reading.Shape
import NotebookCell.Proofs.Reading.Suffix
import NotebookCell.Proofs.Reading.Lexis
import NotebookCell.Proofs.Reading.Member
import NotebookCell.Proofs.Reading.Expression
import NotebookCell.Proofs.Reading.Declaration
import NotebookCell.Proofs.Reading.Statement
import NotebookCell.Proofs.Reading.Program
import NotebookCell.Proofs.Reading.Series
import NotebookCell.Proofs.Reading.Place
import NotebookCell.Proofs.Scope.Fault
import NotebookCell.Proofs.Reading.Locality
import NotebookCell.Proofs.Body.Binding
import NotebookCell.Proofs.Reading.Span
import NotebookCell.Proofs.Reading.Gap
import NotebookCell.Proofs.Template.Lossless
import NotebookCell.Proofs.Body.Resolution
import NotebookCell.Proofs.Body.Removal
import NotebookCell.Proofs.Body.Statements
import NotebookCell.Proofs.Body.Refusal
import NotebookCell.Proofs.Command.Batch
import NotebookCell.Proofs.Command.Wrapping
import NotebookCell.Proofs.Tree.Above
import NotebookCell.Proofs.Tree.Order
import NotebookCell.Proofs.Scope.Hoisting
import NotebookCell.Proofs.Scope.Region
import NotebookCell.Proofs.Scope.Target
import NotebookCell.Proofs.Scope.Earliest
import NotebookCell.Proofs.Scope.Ownership
import NotebookCell.Proofs.Scope.Shadow
import NotebookCell.Proofs.Template.Search
import NotebookCell.Proofs.Ending.Straight
import NotebookCell.Proofs.Ending.Gap
import NotebookCell.Proofs.Ending.Follows
import NotebookCell.Proofs.Ending.Expression
import NotebookCell.Proofs.Ending.Grammar
import NotebookCell.Proofs.Editing.Acceptance
import NotebookCell.Proofs.Body.Fitting
import NotebookCell.Proofs.Body.Nesting
import NotebookCell.Proofs.Ending.Group
import NotebookCell.Proofs.Script.Enclosed
import NotebookCell.Proofs.Template.Closing
import NotebookCell.Proofs.Template.Inputs
import NotebookCell.Proofs.IdCounter
import NotebookCell.Proofs.Template.Opening
import NotebookCell.Proofs.Text.Counting
import NotebookCell.Proofs.Text.Lines
import NotebookCell.Proofs.Tree.Pruning
import NotebookCell.Proofs.Scope.Suspension
import NotebookCell.Proofs.Tree.Recursion
import NotebookCell.Proofs.Tree.Defect
import NotebookCell.Proofs.Scope.Pattern

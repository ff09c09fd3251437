import NotebookCell.Mode
import NotebookCell.Body.Attachment

/-!
# From a cell to a function

A cell becomes an arrow function. Its parameters are the free names of the cell, its inputs; it
returns the value of an expression, or an object of what a program declares, its outputs. Content
for a renderer is first made a tagged template literal.
-/

namespace NotebookCell

open NotebookCell.Tree NotebookCell.Editing NotebookCell.Script NotebookCell.Body

/-- The function that defines the value of a cell. -/
structure CellFunction where
  body : String
  /-- The parameters of the function. -/
  inputs : List String := []
  /-- The members of the object that it returns. -/
  outputs : List String := []
  /-- A single named output in place of several. -/
  output : Option String := none
  /-- Whether the value is displayed without being asked for. -/
  autodisplay : Bool := false
  autoview : Option Bool := none
  automutable : Option Bool := none
deriving DecidableEq, Repr

/-- How cells are transpiled. -/
structure Options where
  resolveLocalImports : Bool := false
  resolveFiles : Bool := false
  /-- Tags in place of the usual ones, by the name of the mode. -/
  tags : List (String × String) := []
  /-- What transpiles cells of the notebook dialect. -/
  delegate : Option (String → CellFunction) := none

/-- The tag for a mode whose usual one is given. -/
def Options.tagFor (options : Options) (mode : Mode) (tag : String) : String :=
  (options.tags.lookup mode.name).getD tag

/-- Why a cell cannot be transpiled. A refusal arises only where an import statement reaches into the
white space around a script, and the last does not arise for parsed sources. -/
inductive Failure where
  | problem (problem : Problem)
  | refusal (refusal : Refusal)
  | imports (defect : ImportDefect)
deriving Repr

/-! ## Script cells -/

/-- The names of nodes, each once, in the order of their first occurrence. -/
def distinctNames (cell : Script.Cell) (nodes : List Node) : List String :=
  (nodes.map cell.name).eraseDups

/-- The inputs of a cell. -/
def inputs (cell : Script.Cell) : List String :=
  distinctNames cell (cell.references.map (·.node))

/-- The outputs of a cell. -/
def outputs (cell : Script.Cell) : List String :=
  distinctNames cell cell.declarations

/-- Whether the function of a cell is asynchronous. -/
def isAsync (cell : Script.Cell) : Bool :=
  cell.isAsync || hasImportStatement cell.body

/-- The start of the function of a cell. -/
def header (cell : Script.Cell) : String :=
  (if isAsync cell then "async (" else "(") ++ ",".intercalate (inputs cell) ++ ") => \x7b\n"

/-- What is returned at the end of the function of a program; nothing where it has no outputs. -/
def returnOutputs (cell : Script.Cell) : List String :=
  if (outputs cell).isEmpty then []
  else ["\nreturn \x7b" ++ ",".intercalate (outputs cell) ++ "\x7d;"]

/-- What is put behind the source of a cell. -/
def footers (cell : Script.Cell) : List String :=
  returnOutputs cell ++ (if cell.isExpression then ["\n)"] else []) ++ ["\n\x7d"]

/-- What is put in front of the source of a cell. -/
def headers (cell : Script.Cell) : List String :=
  header cell :: (if cell.isExpression then ["return (\n"] else [])

/-- The edits that resolve addresses in a cell. -/
def resolutions (cell : Script.Cell) (options : Options) : List Operation :=
  (if options.resolveLocalImports then importCalls cell.offsets cell.body else []) ++
    (if options.resolveFiles then attachments cell.name cell.offsets cell.body else [])

/-- The edits between `opening` and `closing` ones that replace the imports of a cell and resolve its
addresses. Nothing is done behind a defect. -/
def planBetween (opening closing : List Operation) (cell : Script.Cell) (options : Options) :
    Plan :=
  let imports := importStatements cell options.resolveLocalImports
  match imports.defect with
  | some defect => ⟨opening ++ imports.operations, some defect⟩
  | none => ⟨opening ++ imports.operations ++ resolutions cell options ++ closing, none⟩

/-- The edits that make a function of a cell. -/
def plan (cell : Script.Cell) (options : Options) : Plan :=
  planBetween (.trim :: (headers cell).map fun text => .insertLeft 0 text.toList)
    ((footers cell).map fun text => .insertRight cell.source.length text.toList) cell options

/-- Carries out a plan over a source. -/
def Body.Plan.run (plan : Plan) (source : List Char) : Except Failure (List Char) :=
  match (Buffer.ofSource source).runAll plan.operations, plan.defect with
  | .error refusal, _ => .error (.refusal refusal)
  | .ok _, some defect => .error (.imports defect)
  | .ok buffer, none => .ok buffer.text

/-- The source of a cell with its imports replaced and its addresses resolved, and nothing put
around it. -/
def bodyText (cell : Script.Cell) (options : Options) : Except Failure (List Char) :=
  (planBetween [.trim] [] cell options).run cell.source

/-- The function of an analysed cell. -/
def cellFunction (cell : Script.Cell) (options : Options) : Except Failure CellFunction := do
  if let some node := (Scope.yields cell.body).head? then
    throw (.problem (.fault (Cause.yields.fault cell.source (node.startIn cell.offsets))))
  let body ← (plan cell options).run cell.source
  let inputs := inputs cell
  return { body := String.ofList body
           inputs
           outputs := outputs cell
           autodisplay := cell.isExpression &&
             !(inputs.contains "display" || inputs.contains "view") }

/-- Transpiles a script. -/
def transpileScript (source : List Char) (options : Options) : Except Failure CellFunction :=
  match parseCell source with
  | .error problem => .error (.problem problem)
  | .ok cell => cellFunction cell options

/-! ## Cells of any mode -/

/-- The script that a cell of a given mode stands for. -/
def scriptOf (source : List Char) (mode : String) (options : Options) :
    Except Failure (List Char) :=
  let unknown : Except Failure (List Char) :=
    .error (.problem (.fault (Cause.unknownMode mode).anywhere))
  match Mode.ofName? mode with
  | none => unknown
  | some .js => .ok source
  | some mode =>
    match mode.tag? with
    | none => unknown
    | some tag =>
      match Template.transpile source (options.tagFor mode tag).toList mode.embedding with
      | .ok text => .ok text
      | .error (.problem problem) => .error (.problem problem)
      | .error (.refusal refusal) => .error (.refusal refusal)

/-- Transpiles the source of a cell. -/
def transpile (source : String) (mode : String) (options : Options) :
    Except Failure CellFunction :=
  if mode == Mode.ojs.name then
    match options.delegate with
    | none => .error (.problem (.fault Cause.noDelegate.anywhere))
    | some delegate => .ok (delegate source)
  else do
    transpileScript (← scriptOf source.toList mode options) options

end NotebookCell

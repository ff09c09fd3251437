import NotebookCell.Command.Arguments
import NotebookCell.Command.Table
import NotebookCell.Command.Workspace
import NotebookCell.IdCounter
import NotebookCell.Settings
import NotebookCell.Text.Json
import NotebookCell.Text.Newline

/-!
# Running a command

A command reads its files one after the other and makes a function of the cell in each. A cell that
cannot be transpiled ends the command, unless it keeps going; then it is left out. Either way the log
is told first, and where it cannot write the message it breaks the command. A file whose mode is
unknown is a misuse of the command, wherever it stands.
-/

namespace NotebookCell.Command

open NotebookCell.Text

/-- Why a command breaks down. -/
inductive Crash where
  /-- A file is not UTF-8. -/
  | undecodable
  /-- The log level does not exist. -/
  | unknownLevel
  /-- The edits of a cell do not fit together. -/
  | refusal
  /-- An import statement lacks a part. -/
  | imports (defect : Body.ImportDefect)
  /-- The log cannot write the message about a cell. -/
  | unwritable
deriving DecidableEq, Repr

/-- What a command did. -/
structure Outcome where
  exit : Nat
  stdout : String := ""
  crash : Option Crash := none
  /-- What went wrong with single cells. -/
  notes : List String := []

namespace Outcome

/-- The outcome of a misuse. -/
def misuse : Outcome := { exit := 2 }

/-- The outcome of a breakdown. -/
def ofCrash (crash : Crash) : Outcome := { exit := 1, crash := some crash }

end Outcome

/-! ## Cells in files -/

/-- A transpiled cell. -/
structure CellUnit where
  id : String
  path : String
  mode : Mode
  function : CellFunction
deriving Repr

/-- The results of a command over its files. -/
structure Batch where
  units : List CellUnit := []
  notes : List String := []

/-- The log of a command. A log that takes its messages for markup cannot write every one: a bracket in
the path of a file and one in the problem may make a tag that closes nothing. -/
structure Log where
  /-- Whether the log can write the message about the problem of the cell at a path. -/
  writes : (path : String) → Problem → Bool := fun _ _ => true

/-- How cells in files are transpiled. -/
structure BatchOptions where
  options : Options
  /-- The mode of all files; nothing to tell it from their extensions. -/
  mode : Option String := none
  keepGoing : Bool := true
  log : Log := {}

/-- The message about a cell that failed. -/
def note (path : String) : Problem → String
  | .ungrammatical => path ++ ": Malformed source"
  | .fault fault => path ++ ": " ++ fault.text

/-- The mode of a file. -/
def modeOf? (explicit : Option String) (path : String) : Option Mode :=
  match explicit with
  | some name => Mode.ofName? name
  | none => Mode.ofPath? path

/-- The text of a file. -/
def decode? (bytes : ByteArray) : Option String :=
  (String.fromUTF8? bytes).map fun text => String.ofList (unifyLineEnds text.toList)

/-- Transpiles the cells in files, or says how the command ends instead. -/
def transpileFiles (batch : BatchOptions) (lookUp : String → Entry) (counter : IdCounter) :
    List String → Except Outcome Batch
  | [] => .ok {}
  | file :: files => do
    let path := Path.normalise file
    let .file bytes := lookUp file | throw .misuse
    let some source := decode? bytes | throw (.ofCrash .undecodable)
    let some mode := modeOf? batch.mode path | throw .misuse
    let (id, counter) := counter.next none
    match transpile source mode.name batch.options with
    | .ok function =>
      let rest ← transpileFiles batch lookUp counter files
      return { rest with units := ⟨id, path, mode, function⟩ :: rest.units }
    | .error (.problem problem) =>
      if !batch.log.writes path problem then
        throw (.ofCrash .unwritable)
      let message := note path problem
      if !batch.keepGoing then
        throw { exit := 1, notes := [message] }
      let rest ← transpileFiles batch lookUp counter files
      return { rest with notes := message :: rest.notes }
    | .error (.refusal _) => throw (.ofCrash .refusal)
    | .error (.imports defect) => throw (.ofCrash (.imports defect))

/-! ## Output -/

/-- A list of names. -/
def jsonNames (names : List String) : Json := .list (names.map .string)

/-- The members of a transpiled cell in its JSON form. -/
def CellUnit.json (unit : CellUnit) : Json :=
  let function := unit.function
  .object
    ([("id", .string unit.id), ("file", .string unit.path), ("mode", .string unit.mode.name),
      ("body", .string function.body), ("inputs", jsonNames function.inputs)] ++
      (if function.outputs.isEmpty then [] else [("outputs", jsonNames function.outputs)]) ++
      (function.output.map fun name => ("output", Json.string name)).toList ++
      [("autodisplay", .bool function.autodisplay)] ++
      (function.autoview.map fun value => ("autoview", Json.bool value)).toList ++
      (function.automutable.map fun value => ("automutable", Json.bool value)).toList)

/-- The names of a report. -/
def reportNames (names : List String) : String :=
  if names.isEmpty then "-" else ", ".intercalate names

/-- The line of a report about a cell. -/
def CellUnit.report (unit : CellUnit) : String :=
  "✅ " ++ unit.path ++ " (" ++ unit.mode.name ++ ") inputs: " ++
    reportNames unit.function.inputs ++ " outputs: " ++ reportNames unit.function.outputs

/-- Lines of output. -/
def lines (texts : List String) : String :=
  String.join (texts.map (· ++ "\n"))

/-! ## Commands -/

/-- The levels of logging. -/
def logLevels : List String :=
  ["CRITICAL", "FATAL", "ERROR", "WARN", "WARNING", "INFO", "DEBUG", "NOTSET"]

/-- Whether the level of logging exists: the one that is given, or that of the settings. -/
def hasLogLevel (settings : Settings) (given : Option String) : Bool :=
  let level := match given with
    | none | some "" => settings.logLevel
    | some level => level
  logLevels.contains (Settings.upper level)

/-- Runs a command over files and ends it as `finish` says. -/
def overFiles (settings : Settings) (lookUp : String → Entry) (arguments : Arguments)
    (batch : BatchOptions) (finish : Batch → String) : Outcome :=
  let isFile (path : String) : Bool := match lookUp path with
    | .file _ => true
    | _ => false
  if !arguments.files.all isFile then .misuse
  else if !hasLogLevel settings (arguments.value? "--log-level") then .ofCrash .unknownLevel
  else
    match transpileFiles batch lookUp {} arguments.files with
    | .error outcome => outcome
    | .ok results =>
      { exit := if results.notes.isEmpty then 0 else 1
        stdout := finish results
        notes := results.notes }

/-- Runs a request, given the variables of the environment, what is at each path and the log. -/
def run (environment : String → Option String) (lookUp : String → Entry) (request : Request)
    (log : Log := {}) : Outcome :=
  match request with
  | .transpile arguments =>
    let settings := Settings.read environment
    let options := settings.options
      (arguments.choice? "--resolve-files" "--no-resolve-files")
      (arguments.choice? "--resolve-local-imports" "--no-resolve-local-imports")
    let batch := ⟨options, arguments.value? "--mode", arguments.has "--keep-going", log⟩
    overFiles settings lookUp arguments batch fun results =>
      String.ofList ((Json.list (results.units.map (·.json))).render 0 ++ ['\n'])
  | .check arguments =>
    let settings := Settings.read environment
    let batch := ⟨settings.options none none, arguments.value? "--mode", true, log⟩
    overFiles settings lookUp arguments batch fun results =>
      lines (results.units.map (·.report))
  | .modes => { exit := 0, stdout := lines modesTable }
  | .help => { exit := 0 }
  | .misuse => .misuse

end NotebookCell.Command

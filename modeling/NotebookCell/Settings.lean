import NotebookCell.Text.Blank
import NotebookCell.Text.Uppercase
import NotebookCell.Transpile

/-!
# Settings from the environment

Environment variables give the options of the command line their usual values.
-/

namespace NotebookCell

/-- What the environment says. -/
structure Settings where
  logLevel : String
  resolveFiles : Bool
  resolveLocalImports : Bool
deriving DecidableEq, Repr

namespace Settings

/-- Whether the value of a variable turns something on. -/
def isTruthy (value : String) : Bool :=
  ["1", "true", "yes", "on"].contains
    (String.ofList ((Text.trim value.toList).map Char.toLower))

/-- A text in upper case. -/
def upper (text : String) : String := String.ofList (Text.upper text.toList)

/-- Reads the settings, given the variables that are set. -/
def read (environment : String → Option String) : Settings where
  logLevel := upper ((environment "CELLSCRIPT_LOG_LEVEL").getD "WARNING")
  resolveFiles := isTruthy ((environment "CELLSCRIPT_RESOLVE_FILES").getD "")
  resolveLocalImports := isTruthy ((environment "CELLSCRIPT_RESOLVE_LOCAL_IMPORTS").getD "")

/-- Options from explicit choices, and from the settings where there is none. -/
def options (settings : Settings) (resolveFiles resolveLocalImports : Option Bool) : Options where
  resolveFiles := resolveFiles.getD settings.resolveFiles
  resolveLocalImports := resolveLocalImports.getD settings.resolveLocalImports

end Settings

end NotebookCell

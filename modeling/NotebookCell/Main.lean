import NotebookCell.Command.Run

/-!
# The command line

Reads the arguments, the environment and the named files, and prints what the command says.
-/

namespace NotebookCell

open NotebookCell.Command

/-- What is at a path. A directory cannot be read and counts as missing. -/
def readEntry (path : String) : IO (String × Entry) := do
  try
    return (path, .file (← IO.FS.readBinFile path))
  catch _ =>
    return (path, .missing)

/-- The variable of the environment with a given name. -/
def readVariable (name : String) : IO (String × Option String) := do
  return (name, ← IO.getEnv name)

end NotebookCell

open NotebookCell NotebookCell.Command in
/-- Runs a command line. -/
def main (arguments : List String) : IO UInt32 := do
  let request := Request.read arguments
  let entries ← request.files.mapM readEntry
  let values ← ["CELLSCRIPT_LOG_LEVEL", "CELLSCRIPT_RESOLVE_FILES",
    "CELLSCRIPT_RESOLVE_LOCAL_IMPORTS"].mapM readVariable
  let outcome := run (fun name => (values.lookup name).join)
    (fun path => (entries.lookup path).getD .missing) request
  (← IO.getStderr).putStr (lines (outcome.notes.map ("❌ " ++ ·)))
  (← IO.getStdout).putStr outcome.stdout
  return outcome.exit.toUInt32

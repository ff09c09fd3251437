import NotebookCell.Path

/-!
# Files in a directory

A `Workspace` is a directory with files, some of them in directories below it.
-/

namespace NotebookCell.Command

/-- What is at a path. -/
inductive Entry where
  | missing
  | directory
  | file (bytes : ByteArray)

/-- A directory: the files in it and below it, by the names on their paths. -/
structure Workspace where
  files : List (List String × ByteArray)

namespace Workspace

/-- The directory with the given files. -/
def ofFiles (files : List (String × ByteArray)) : Workspace :=
  ⟨files.map fun (path, bytes) => (Path.parts path, bytes)⟩

/-- What is at a place given by names from the directory down. -/
def entry (workspace : Workspace) (place : List String) : Entry :=
  match workspace.files.find? fun file => file.1 == place with
  | some file => .file file.2
  | none =>
    if place.isEmpty || workspace.files.any fun file => place.isPrefixOf file.1 then .directory
    else .missing

/-- Follows names from a place. Every name needs a directory to be looked up in; an empty name and
a single dot stay there, and a double dot goes up, but not out of the workspace. -/
def follow (workspace : Workspace) (place : List String) : List String → Option (List String)
  | [] => some place
  | name :: names =>
    match workspace.entry place with
    | .directory =>
      if name == "" || name == "." then workspace.follow place names
      else if name == ".." then
        if place.isEmpty then none else workspace.follow place.dropLast names
      else workspace.follow (place ++ [name]) names
    | _ => none

/-- What is at a path. Absolute paths lead out of the workspace. -/
def lookUp (workspace : Workspace) (path : String) : Entry :=
  if path == "" || path.startsWith "/" then .missing
  else
    match workspace.follow [] (Path.names path) with
    | some place => workspace.entry place
    | none => .missing

end Workspace

end NotebookCell.Command

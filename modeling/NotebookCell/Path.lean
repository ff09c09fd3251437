/-!
# Paths of files

A path is a sequence of names between slashes. Empty names and single dots say nothing and are left
out when a path is written; double dots are kept.
-/

namespace NotebookCell.Path

/-- The names of a path as written. -/
def names (path : String) : List String := path.splitOn "/"

/-- The names of a path that say something. -/
def parts (path : String) : List String :=
  (names path).filter fun name => name != "" && name != "."

/-- What an absolute path starts with: one slash, or exactly two; nothing for a relative one. -/
def root (path : String) : String :=
  if path.startsWith "///" then "/"
  else if path.startsWith "//" then "//"
  else if path.startsWith "/" then "/"
  else ""

/-- The path as it is written in answers. -/
def normalise (path : String) : String :=
  let text := root path ++ "/".intercalate (parts path)
  if text == "" then "." else text

/-- The last name of a path. -/
def fileName (path : String) : String := (parts path).getLast?.getD ""

/-- The extension of a path: what its last name has from its last dot on, unless this dot is its
first or last character. -/
def extension (path : String) : String :=
  let name := (fileName path).toList
  let tail := (name.reverse.takeWhile (· != '.')).reverse
  if tail.isEmpty || tail.length + 1 ≥ name.length then ""
  else String.ofList ('.' :: tail)

end NotebookCell.Path

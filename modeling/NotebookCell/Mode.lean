import NotebookCell.Path
import NotebookCell.Template.Escape

/-!
# Modes of cells

A cell is written in one of seven modes: script, the notebook dialect that another transpiler takes
care of, or content for a renderer. The extension of a file tells the mode of the cell in it.
-/

namespace NotebookCell

open NotebookCell.Template

/-- What a cell is written in. -/
inductive Mode where
  | js | ojs | md | html | tex | dot | sql
deriving DecidableEq, Repr

namespace Mode

/-- All modes in their usual order. -/
def all : List Mode := [js, ojs, md, html, tex, dot, sql]

/-- The name of a mode. -/
def name : Mode → String
  | js => "js"
  | ojs => "ojs"
  | md => "md"
  | html => "html"
  | tex => "tex"
  | dot => "dot"
  | sql => "sql"

/-- The mode of a given name. -/
def ofName? (name : String) : Option Mode := all.find? (·.name == name)

/-- The tag of the renderer of a template mode. -/
def tag? : Mode → Option String
  | js | ojs => none
  | md => some "md"
  | html => some "html"
  | tex => some "tex.block"
  | dot => some "dot"
  | sql => some "__sql(db, Inputs.table)"

/-- What the renderer of a template mode gets to see. -/
def embedding : Mode → Embedding
  | md | html => .raw
  | _ => .cooked

/-- Whether the content of a cell in this mode is passed to a renderer. -/
def isTemplate (mode : Mode) : Bool := mode.tag?.isSome

/-- The lower-case form of a character in an extension. Outside of ASCII only the Kelvin sign has
one that occurs in the extensions below. -/
def lowerOf (c : Char) : Char :=
  if c == '\u212a' then 'k' else c.toLower

/-- The mode that an extension stands for. -/
def ofExtension? (extension : String) : Option Mode :=
  match String.ofList (extension.toList.map lowerOf) with
  | ".js" | ".mjs" => some js
  | ".ojs" => some ojs
  | ".md" | ".markdown" => some md
  | ".html" | ".htm" => some html
  | ".tex" => some tex
  | ".dot" | ".gv" => some dot
  | ".sql" => some sql
  | _ => none

/-- The mode of the cell in a file. -/
def ofPath? (path : String) : Option Mode := ofExtension? (Path.extension path)

end Mode

end NotebookCell

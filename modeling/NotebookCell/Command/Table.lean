import NotebookCell.Mode

/-!
# The table of modes

A boxed table with a title, wide enough for its widest cells.
-/

namespace NotebookCell.Command

/-- A text with blanks behind it up to a width. -/
def padRight (width : Nat) (text : String) : String :=
  text ++ String.ofList (List.replicate (width - text.length) ' ')

/-- A text in the middle of a width. -/
def center (width : Nat) (text : String) : String :=
  padRight width (String.ofList (List.replicate ((width - text.length) / 2) ' ') ++ text)

/-- A line of a table: cells with a blank on both sides, between bars. -/
def cellLine (bar : String) (widths : List Nat) (cells : List String) : String :=
  bar ++ bar.intercalate ((widths.zip cells).map fun (width, cell) =>
    " " ++ padRight width cell ++ " ") ++ bar

/-- A rule of a table. -/
def rule (left line cross right : String) (widths : List Nat) : String :=
  left ++ cross.intercalate (widths.map fun width =>
    String.join (List.replicate (width + 2) line)) ++ right

/-- The width of each column. -/
def columnWidths (rows : List (List String)) : List Nat :=
  rows.foldl (fun widths row => widths.zipWith max (row.map String.length))
    ((rows.headD []).map String.length)

/-- A table with a title, a row of headings and further rows. -/
def table (title : String) (headings : List String) (rows : List (List String)) : List String :=
  let widths := columnWidths (headings :: rows)
  let top := rule "┏" "━" "┳" "┓" widths
  [center top.length title, top, cellLine "┃" widths headings, rule "┡" "━" "╇" "┩" widths] ++
    rows.map (cellLine "│" widths) ++ [rule "└" "─" "┴" "┘" widths]

/-- What a mode does with the content of a cell. -/
def embeddingName (mode : Mode) : String :=
  match mode, mode.isTemplate, mode.embedding with
  | .js, _, _ => "script"
  | _, false, _ => "delegated"
  | _, true, .raw => "raw"
  | _, true, .cooked => "cooked"

/-- The table of all modes. -/
def modesTable : List String :=
  table "Cell modes" ["Mode", "Embedding", "Renderer tag"]
    (Mode.all.map fun mode => [mode.name, embeddingName mode, mode.tag?.getD "-"])

end NotebookCell.Command

/-!
# Line ends of a file

Files end their lines in one of three ways. A cell has line feeds only.
-/

namespace NotebookCell.Text

/-- The text with every line end as a line feed. -/
def unifyLineEnds : List Char → List Char
  | [] => []
  | '\r' :: '\n' :: text => '\n' :: unifyLineEnds text
  | '\r' :: text => '\n' :: unifyLineEnds text
  | c :: text => c :: unifyLineEnds text

end NotebookCell.Text

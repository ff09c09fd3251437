/-!
# Lines and columns

Offsets into a text count characters. For people they are written as a line, counted from one, and
a column, counted from zero; only a line feed ends a line.
-/

namespace NotebookCell.Text

/-- The nearest offset between zero and `length`. -/
def clamp (length : Nat) (pos : Int) : Nat :=
  min pos.toNat length

/-- A place in a text as line and column. -/
structure Place where
  line : Nat
  column : Nat
deriving DecidableEq, Repr

/-- The line and column of an offset; an offset outside of the text counts as its nearest end. -/
def placeOf (text : List Char) (pos : Int) : Place :=
  let head := text.take (clamp text.length pos)
  ⟨head.count '\n' + 1, (head.reverse.takeWhile (· != '\n')).length⟩

end NotebookCell.Text

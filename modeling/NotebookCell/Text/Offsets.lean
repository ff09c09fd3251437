import NotebookCell.Text.Position

/-!
# From bytes to characters

A syntax tree counts bytes of the text that was parsed; everything else counts characters of the
cell. `Offsets` leads from one to the other. The parsed text may have bytes in front of the cell,
as when the cell is parsed inside parentheses. A byte inside a character belongs to it, and bytes
outside of the cell belong to its nearest end.
-/

namespace NotebookCell.Text

/-- For each byte of the text in order, the index of the character it belongs to, counted from
`index`. -/
def ownersFrom (index : Nat) : List Char → List Nat
  | [] => []
  | c :: text => List.replicate c.utf8Size index ++ ownersFrom (index + 1) text

/-- A way from byte offsets to character offsets. `owners` is left out for a text of single bytes. -/
structure Offsets where
  source : List Char
  shift : Int
  owners : Option (Array Nat)
deriving Repr

namespace Offsets

/-- The offsets for a cell with `shift` bytes parsed in front of it. -/
def ofSource (source : List Char) (shift : Int) : Offsets where
  source
  shift
  owners :=
    if source.all fun c => c.utf8Size == 1 then none
    else some (ownersFrom 0 source ++ [source.length]).toArray

/-- The character offset of a byte offset. -/
def char (offsets : Offsets) (byte : Int) : Nat :=
  match offsets.owners with
  | none => clamp offsets.source.length (byte - offsets.shift)
  | some owners => owners.getD (clamp (owners.size - 1) (byte - offsets.shift)) 0

/-- The part of the source between two byte offsets. -/
def slice (offsets : Offsets) (start stop : Int) : List Char :=
  let first := offsets.char start
  (offsets.source.drop first).take (offsets.char stop - first)

end Offsets

/-- The characters of a text whose first byte lies between two byte offsets. -/
def byteSlice (text : List Char) (start stop : Nat) : List Char :=
  go text 0
where
  go : List Char → Nat → List Char
    | [], _ => []
    | c :: text, pos =>
      if stop ≤ pos then []
      else if start ≤ pos then c :: go text (pos + c.utf8Size)
      else go text (pos + c.utf8Size)

end NotebookCell.Text

import NotebookCell.Text.Blank
import NotebookCell.Text.Position

/-!
# Edits over an unchanging text

An edit replaces a range of the source by a value; an insertion replaces an empty range. Edits are
recorded against offsets of the source and applied all at once, so no edit moves another. At each
offset the edits on the left come before those on the right, and on each side they keep the order in
which they were recorded. Ranges that hold characters may not overlap.
-/

namespace NotebookCell.Editing

/-- The side of an offset on which an edit is applied. -/
inductive Side where
  | left | right
deriving DecidableEq, Repr

/-- The replacement of the characters from `start` up to `stop` by `value`. -/
structure Edit where
  side : Side
  start : Nat
  stop : Nat
  value : List Char
deriving DecidableEq, Repr

namespace Edit

/-- Whether the edit replaces no character. -/
def isInsertion (edit : Edit) : Bool := edit.start == edit.stop

/-- Whether the edit is applied no later than another: by offset, and left before right. -/
def precedes (edit other : Edit) : Bool :=
  edit.start < other.start ||
    (edit.start == other.start && (edit.side == .left || other.side == .right))

/-- The edits with one more behind all that precede it. -/
def insertInto (edit : Edit) : List Edit → List Edit
  | [] => [edit]
  | other :: edits =>
    if other.precedes edit then other :: insertInto edit edits else edit :: other :: edits

/-- Whether the edit replaces a character from `start` up to `stop`. -/
def meets (edit : Edit) (start stop : Nat) : Bool :=
  start < edit.stop && edit.start < stop

end Edit

/-- Why an edit is refused. -/
inductive Refusal where
  /-- The range is reversed or leaves the source. -/
  | outside (start stop : Int) (length : Nat)
  /-- The range shares a character with one recorded before. -/
  | overlap (start stop : Nat) (other : Edit)
deriving DecidableEq, Repr

/-- The wording of a refusal. -/
def Refusal.message : Refusal → String
  | outside start stop length =>
    "Edit range [" ++ toString start ++ ", " ++ toString stop ++ ") outside of [0, " ++
      toString length ++ "]"
  | overlap start stop other =>
    "Edit range [" ++ toString start ++ ", " ++ toString stop ++ ") overlaps [" ++
      toString other.start ++ ", " ++ toString other.stop ++ ")"

/-- A source and the edits recorded over it, in the order of their application. `ranges` are those
that replace characters, in the order of their recording. -/
structure Buffer where
  source : List Char
  edits : List Edit := []
  ranges : List Edit := []
deriving Repr

/-- An operation on a buffer. Deleting is replacing on the right by nothing. -/
inductive Operation where
  | replace (side : Side) (start stop : Int) (value : List Char)
  | trim
deriving DecidableEq, Repr

namespace Operation

/-- Inserts a value before the insertions on the right of `pos`. -/
def insertLeft (pos : Int) (value : List Char) : Operation := .replace .left pos pos value

/-- Inserts a value behind the insertions on the left of `pos`. -/
def insertRight (pos : Int) (value : List Char) : Operation := .replace .right pos pos value

/-- Deletes a range. -/
def delete (start stop : Int) : Operation := .replace .right start stop []

end Operation

namespace Buffer

/-- A buffer without edits. -/
def ofSource (source : List Char) : Buffer := { source }

/-- Records an edit, or refuses it. -/
def record (buffer : Buffer) (side : Side) (start stop : Int) (value : List Char) :
    Except Refusal Buffer :=
  if start < 0 || stop > buffer.source.length || start > stop then
    .error (.outside start stop buffer.source.length)
  else
    let edit : Edit := ⟨side, start.toNat, stop.toNat, value⟩
    if edit.isInsertion then
      .ok { buffer with edits := edit.insertInto buffer.edits }
    else
      match buffer.ranges.find? (·.meets edit.start edit.stop) with
      | some other => .error (.overlap edit.start edit.stop other)
      | none => .ok { buffer with
          edits := edit.insertInto buffer.edits, ranges := buffer.ranges ++ [edit] }

/-- The ranges of white space that trimming deletes: the whole source, or its two ends. -/
def margins (source : List Char) : List (Nat × Nat) :=
  let length := source.length
  let head := length - (Text.trimStart source).length
  if head == length then [(0, length)] else [(0, head), ((Text.trimEnd source).length, length)]

/-- Deletes ranges one after the other. A refusal ends this and keeps what was deleted before. -/
def deleteAll (buffer : Buffer) : List (Nat × Nat) → Buffer × Option Refusal
  | [] => (buffer, none)
  | (start, stop) :: ranges =>
    match buffer.record .right start stop [] with
    | .ok buffer => buffer.deleteAll ranges
    | .error refusal => (buffer, some refusal)

/-- Deletes the white space at the ends of the source. -/
def trim (buffer : Buffer) : Buffer × Option Refusal :=
  buffer.deleteAll ((margins buffer.source).filter fun (start, stop) => start != stop)

/-- Runs one operation. What was recorded stays recorded when it is refused. -/
def run (buffer : Buffer) : Operation → Buffer × Option Refusal
  | .replace side start stop value =>
    match buffer.record side start stop value with
    | .ok buffer => (buffer, none)
    | .error refusal => (buffer, some refusal)
  | .trim => buffer.trim

/-- Runs operations in order up to the first refusal. -/
def runAll (buffer : Buffer) : List Operation → Except Refusal Buffer
  | [] => .ok buffer
  | operation :: operations =>
    match buffer.run operation with
    | (buffer, none) => buffer.runAll operations
    | (_, some refusal) => .error refusal

/-- Applies edits to the rest of a source from offset `index` on. -/
def applyFrom (index : Nat) (rest : List Char) : List Edit → List Char
  | [] => rest
  | edit :: edits =>
    let before := edit.start - index
    let index := index + before
    let rest' := rest.drop before
    rest.take before ++ edit.value ++
      applyFrom (max index edit.stop) (rest'.drop (edit.stop - index)) edits

/-- The source with all edits applied. -/
def text (buffer : Buffer) : List Char :=
  applyFrom 0 buffer.source buffer.edits

end Buffer

end NotebookCell.Editing

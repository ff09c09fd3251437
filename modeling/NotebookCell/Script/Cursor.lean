import NotebookCell.Script.Character
import NotebookCell.Tree.Node

/-!
# Reading positions and parsers

A `Cursor` is the text still to be read together with the byte offset where it starts. A `Parser`
moves the cursor or refuses; refusing restores nothing because the state is a value. Repetition is
bounded by the length of the text, so every parser is total.
-/

namespace NotebookCell.Script

open NotebookCell.Tree

/-- The text still to be read and its byte offset. -/
structure Cursor where
  rest : List Char
  pos : Nat
deriving Repr

/-- A parser that refuses by returning nothing. -/
abbrev Parser := StateT Cursor Option

/-- The number of bytes of `text` in UTF-8. -/
def byteLength : List Char → Nat
  | [] => 0
  | c :: text => c.utf8Size + byteLength text

namespace Cursor

/-- The cursor at the start of a text. -/
def ofText (text : List Char) : Cursor := ⟨text, 0⟩

/-- Moves past the longest run of characters in a class. -/
def skipWhile (p : Char → Bool) (c : Cursor) : Cursor :=
  ⟨c.rest.dropWhile p, c.pos + byteLength (c.rest.takeWhile p)⟩

/-- Moves past the first `n` characters. -/
def skip (n : Nat) (c : Cursor) : Cursor :=
  ⟨c.rest.drop n, c.pos + byteLength (c.rest.take n)⟩

/-- Whether `text` comes next. -/
def startsWith (c : Cursor) (text : String) : Bool :=
  text.toList.isPrefixOf c.rest

/-- Whether a character of the class `p` comes next. -/
def sees (c : Cursor) (p : Char → Bool) : Bool :=
  c.rest.head?.any p

end Cursor

namespace Parser

/-- The current cursor. -/
def cursor : Parser Cursor := get

/-- The current byte offset. -/
def position : Parser Nat := return (← get).pos

/-- Refuses unless `condition` holds. -/
def require (condition : Bool) : Parser Unit :=
  if condition then pure () else failure

/-- Reads exactly `text`. -/
def literal (text : String) : Parser Unit := do
  let c ← get
  require (c.startsWith text)
  set (c.skip text.length)

/-- Repeats `step` until it yields nothing, at most once more than there are characters in the
first argument, and collects what it yields. -/
def collect (step : Parser (Option α)) : List Char → Parser (List α)
  | [] => return (← step).toList
  | _ :: bound => do
    match ← step with
    | none => return []
    | some a => return a :: (← collect step bound)

/-- Repeats `step` until it yields nothing. A step that yields something reads at least one
character, so the text itself bounds the repetition. -/
def many (step : Parser (Option α)) : Parser (List α) := do
  collect step (← get).rest

/-- Applies `step` to a growing value until it yields nothing, at most once more than there are
characters in the first argument. -/
def extend (step : α → Parser (Option α)) : List Char → α → Parser α
  | [], a => return (← step a).getD a
  | _ :: bound, a => do
    match ← step a with
    | none => return a
    | some b => extend step bound b

/-- Grows a value until `step` yields nothing; the text bounds the repetition as in `many`. -/
def iterate (step : α → Parser (Option α)) (a : α) : Parser α := do
  extend step (← get).rest a

/-- Succeeds with nothing, and without moving, where `p` refuses. -/
def optional (p : Parser α) : Parser (Option α) := fun c =>
  match p c with
  | some (a, c) => some (some a, c)
  | none => some (none, c)

end Parser

end NotebookCell.Script

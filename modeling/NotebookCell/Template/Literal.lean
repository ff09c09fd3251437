import NotebookCell.Script.Cell
import NotebookCell.Text.Blank

/-!
# Text with holes

The content of a template cell is literal text with expressions in holes `${...}`. A hole ends at
the first closing brace before which there is one complete expression. A backslash in literal text
takes the next character with it, so that `\${` opens no hole.
-/

namespace NotebookCell.Template

open NotebookCell.Tree NotebookCell.Text NotebookCell.Script

/-! ## The parts of a template -/

/-- A stretch of literal text; `tail` marks the last one. -/
structure Quasi where
  start : Nat
  stop : Nat
  tail : Bool := false
deriving DecidableEq, Repr

/-- The expression of a hole, between its braces. -/
structure Hole where
  start : Nat
  stop : Nat
deriving DecidableEq, Repr

/-- Literal text and holes in turn; there is one more stretch of text than there are holes. -/
structure Content where
  quasis : List Quasi
  holes : List Hole
deriving DecidableEq, Repr

/-- The characters of a text between two offsets. -/
def slice (text : List Char) (start stop : Nat) : List Char :=
  (text.drop start).take (stop - start)

/-! ## Literal text -/

/-- Finds the end of a stretch of literal text that begins at an offset. -/
abbrev LiteralReader := (source : List Char) → (pos : Nat) → Nat

/-- The offset where literal text ends, given the text from `pos` on. -/
def literalEnd (pos : Nat) : List Char → Nat
  | [] => pos
  | '\\' :: _ :: rest => literalEnd (pos + 2) rest
  | '$' :: '\x7b' :: _ => pos
  | _ :: rest => literalEnd (pos + 1) rest

/-- Literal text ends before the first `${` that no backslash takes along, or with the source. -/
def readLiteral : LiteralReader := fun source pos =>
  if source.length ≤ pos then source.length else literalEnd pos (source.drop pos)

/-- The offset from `pos` on of the first occurrence of `mark` in a text. -/
def findFrom? (mark : List Char) (pos : Nat) : List Char → Option Nat
  | [] => if mark.isEmpty then some pos else none
  | c :: rest =>
    if mark.isPrefixOf (c :: rest) then some pos else findFrom? mark (pos + 1) rest

/-- Literal text ends before the first occurrence of `mark`, or with the source. -/
def readUntil (mark : List Char) : LiteralReader := fun source pos =>
  if source.length < pos then source.length
  else (findFrom? mark pos (source.drop pos)).getD source.length

/-! ## Holes -/

/-- What a text is as the expression of a hole. -/
inductive Verdict where
  /-- It is not one expression. -/
  | problem (problem : Problem)
  /-- It is one expression, but a line comment reaches its end and would take the brace. -/
  | swallowsBrace
  /-- It is one expression. -/
  | complete
deriving DecidableEq, Repr

/-- Whether a line comment below `root` reaches the end of the source. -/
def endsInLineComment (root : Node) (offsets : Offsets) : Bool :=
  root.walkAll.any fun node =>
    node.kind == .comment && "//".toList.isPrefixOf (node.textIn offsets) &&
      node.stopIn offsets ≥ offsets.source.length

/-- Judges a text by the grammar of expressions. -/
def judge (text : List Char) : Verdict :=
  match parseExpression text with
  | .error problem => .problem problem
  | .ok parsed =>
    if endsInLineComment parsed.root parsed.offsets then .swallowsBrace else .complete

/-- The offsets of the closing braces of a text, counted from `pos`. -/
def bracesFrom (pos : Nat) : List Char → List Nat
  | [] => []
  | c :: rest => if c == '\x7d' then pos :: bracesFrom (pos + 1) rest else bracesFrom (pos + 1) rest

/-- The problem with the text of a hole that starts at `start`, as a problem of the source. -/
def relocate (source : List Char) (start : Nat) : Problem → Problem
  | .ungrammatical => .ungrammatical
  | .fault fault =>
    .fault (.located .parse fault.message source (start + fault.pos.getD 0))

/-- Tries the closing braces in order. `first` is the problem with the leftmost text that is not
an expression, if there was one. -/
def closeHole (verdict : List Char → Verdict) (source : List Char) (start : Nat)
    (first : Option Problem) : List Nat → Except Problem Hole
  | [] => .error (first.getD (.fault (Cause.unterminatedTemplate.fault source (start - 2 : Int))))
  | stop :: stops =>
    match verdict (slice source start stop) with
    | .complete => .ok ⟨start, stop⟩
    | .swallowsBrace => closeHole verdict source start first stops
    | .problem problem =>
      closeHole verdict source start (first <|> some (relocate source start problem)) stops

/-- Reads the hole whose expression starts at `start`. -/
def readHole (verdict : List Char → Verdict) (source : List Char) (start : Nat) :
    Except Problem Hole :=
  match bracesFrom start (source.drop start) with
  | [] => .error (.fault (Cause.unterminatedTemplate.fault source (start - 2 : Int)))
  | stop :: stops =>
    if (trim (slice source start stop)).isEmpty then
      .error (.fault ((Cause.unexpected "\x7d").fault source stop))
    else
      closeHole verdict source start none (stop :: stops)

/-! ## Templates -/

/-- Reads the rest of a template from `pos` on, with at most `bound` holes. -/
def readFrom (reader : LiteralReader) (verdict : List Char → Verdict) (source : List Char) :
    (bound pos : Nat) → Except Problem Content
  | bound, pos =>
    let stop := reader source pos
    if stop ≥ source.length then .ok ⟨[⟨pos, stop, true⟩], []⟩
    else
      match bound, source.drop stop with
      | bound + 1, '$' :: '\x7b' :: _ => do
        let hole ← readHole verdict source (stop + 2)
        let rest ← readFrom reader verdict source bound (hole.stop + 1)
        return ⟨⟨pos, stop, false⟩ :: rest.quasis, hole :: rest.holes⟩
      | _, rest =>
        .error (.fault ((Cause.unexpected (String.ofList (rest.take 1))).fault source stop))

/-- Reads the content of a template cell. Every hole takes characters of its own, so the length of
the source bounds their number. -/
def parseWith (reader : LiteralReader) (source : List Char) : Except Problem Content :=
  readFrom reader judge source source.length 0

/-- Reads the content of a template cell. -/
def parse (source : List Char) : Except Problem Content :=
  parseWith readLiteral source

end NotebookCell.Template

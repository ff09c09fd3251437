import NotebookCell.Script.Trivia

/-!
# Where a statement ends without a semicolon

A semicolon is supplied at the end of the text, before a closing brace, and after a line break
unless the text after the break continues the statement. Comments are looked through, with three
peculiarities: a block comment that spans lines counts as a line break only after something that
is not an operand; behind a block comment on the same line the end of the text is not yet seen;
and a slash that opens no comment means division.
-/

namespace NotebookCell.Script

open NotebookCell.Tree

/-- How a stretch of spacing and comments ended. -/
inductive GapEnd where
  /-- at a slash that opens no comment -/
  | division
  /-- right behind a block comment without a line break -/
  | sameLine
  /-- at some other character, or at the end -/
  | other
deriving DecidableEq, Repr

/-- What is left behind a block comment, whether a line break was passed, and whether the comment
was closed. -/
def skipBlockComment (broken : Bool) : List Char → List Char × Bool × Bool
  | [] => ([], broken, false)
  | '*' :: '/' :: text => (text, broken, true)
  | c :: text => skipBlockComment (broken || isLineBreak c) text

/-- Passes over spacing and comments. Unless `through` is set, it stops right behind a block
comment that no slash follows. The first argument bounds the number of comments. -/
def skipGap (through : Bool) : List Char → Bool → List Char → GapEnd × List Char
  | [], _, text => (.other, text)
  | _ :: bound, broken, text =>
    match text.dropWhile isSpacing with
    | '/' :: '/' :: text => skipGap through bound broken (text.dropWhile fun c => !isLineBreak c)
    | '/' :: '*' :: text =>
      let (text, broken, closed) := skipBlockComment broken text
      if closed && !through && text.head? != some '/' then
        (if broken then .other else .sameLine, text)
      else
        skipGap through bound broken text
    | '/' :: text => (.division, text)
    | text => (.other, text)

/-- Whether a statement may begin with this text after a line break, rather than continue the
one before. -/
def beginsStatement : List Char → Bool
  | [] => true
  | c :: text =>
    if "\x60,:;*%><=[(?^|&/".toList.contains c then false
    else if c == '.' then text.head?.any Char.isDigit
    else if c == '+' || c == '-' then text.head? == some c
    else if c == '!' then text.head? != some '='
    else if c == 'i' && text.head? == some 'n' then
      let text := text.drop 1
      if !text.head?.any isLetter then false
      else if "stanceof".toList.isPrefixOf text then (text.drop 8).head?.any isLetter
      else true
    else true

/-- Whether the text after a line break lets a semicolon be supplied before the break. -/
def breaksStatement (text : List Char) : Bool :=
  match skipGap true ('/' :: text) false text with
  | (.division, _) => false
  | (_, text) => beginsStatement text

/-- Whether a semicolon is supplied here. `operand` tells that the text so far ends in an operand.
The first argument bounds the number of characters and comments looked through. -/
def suppliesSemicolon (operand : Bool) : List Char → List Char → Bool
  | _, [] => true
  | [], _ => false
  | _ :: bound, c :: text =>
    let step : List Char → Bool
      | [] => false
      | c :: text =>
        if c == '\x7d' then true
        else if isLineBreak c then breaksStatement text
        else isSpacing c && suppliesSemicolon operand bound text
    if c == '/' then
      match skipGap false (c :: text) false (c :: text) with
      | (.division, _) => false
      | (ending, text) =>
        let continued := text.head? == some ',' || text.head? == some '='
        (ending == .other && !operand && !continued) || step text
    else
      step (c :: text)

namespace Cursor

/-- Whether a semicolon is supplied at the cursor. -/
def endsStatement (operand : Bool) (c : Cursor) : Bool :=
  suppliesSemicolon operand c.rest c.rest

/-- The next token and the comments before it, or nothing where the statement ends: `ends` is
asked here and again behind each comment. The first argument bounds the number of comments. -/
def nextToken? (ends : Cursor → Bool) : List Char → Cursor → Option (List Node × Cursor)
  | [], c => if ends c then none else some ([], c.skipWhile isBlank)
  | _ :: bound, c =>
    if ends c then none
    else
      let c := c.skipWhile isBlank
      match c.comment? with
      | some (node, c) => (nextToken? ends bound c).map fun (nodes, c) => (node :: nodes, c)
      | none => some ([], c)

end Cursor

namespace Parser

/-- The token after an operand and the comments before it. Nothing, where `asi` allows a supplied
semicolon and one is due. Does not move. -/
def lookahead (asi : Bool) : Parser (Option (List Node × Cursor)) := do
  let c ← get
  return c.nextToken? (fun c => asi && c.endsStatement true) c.rest

/-- The token after something that is no operand, as `lookahead`. -/
def lookaheadPlain : Parser (Option (List Node × Cursor)) := do
  let c ← get
  return c.nextToken? (fun c => c.endsStatement false) c.rest

/-- One comment before the end of a statement, or nothing at the end. -/
def semicolonStep (operand : Bool) : Parser (Option Node) := do
  let c ← get
  if c.endsStatement operand then
    return none
  let c := c.skipWhile isBlank
  match c.comment? with
  | some (node, c) =>
    set c
    return some node
  | none =>
    set c
    literal ";"
    return none

/-- Reads the end of a statement, a semicolon or a place where one is supplied, and yields the
comments before it. -/
def semicolon (operand : Bool) : Parser (List Node) := many (semicolonStep operand)

end Parser

end NotebookCell.Script

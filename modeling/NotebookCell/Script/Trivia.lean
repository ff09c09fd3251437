import NotebookCell.Script.Cursor

/-!
# Blanks and comments

Between any two tokens there may be blanks and comments. Comments are kept as nodes because they
can matter later: a line comment at the end of a template hole would swallow the closing brace.
Markup-style comments (from an opening or closing mark to the end of the line) are recognised only
where an operand may start; after an operand the same characters are operators.
-/

namespace NotebookCell.Script

open NotebookCell.Tree

/-- A line comment ends before any of these. -/
def endsLineComment (c : Char) : Bool :=
  c == '\r' || isLineBreak c

/-- The number of characters up to and including the first `*/`. -/
def blockCommentLength? : List Char → Option Nat
  | [] => none
  | '*' :: '/' :: _ => some 2
  | _ :: text => (blockCommentLength? text).map (· + 1)

namespace Cursor

/-- The node from `start` to this cursor. -/
def leaf (kind : Kind) (start : Nat) (c : Cursor) : Node × Cursor :=
  ({ kind, start, stop := c.pos }, c)

/-- The comment that starts here. A block comment that is never closed is none. -/
def comment? (c : Cursor) : Option (Node × Cursor) :=
  match c.rest with
  | '/' :: '/' :: _ => some (leaf .comment c.pos (c.skipWhile fun ch => !endsLineComment ch))
  | '/' :: '*' :: text =>
    (blockCommentLength? text).map fun length => leaf .comment c.pos (c.skip (length + 2))
  | _ => none

/-- The markup-style comment that comes next on this line or a later one. -/
def markupComment? (c : Cursor) : Option (Node × Cursor) :=
  let c := c.skipWhile isSpacing
  if c.startsWith "<!--" || c.startsWith "-->" then
    some (leaf .htmlComment c.pos (c.skipWhile fun ch => !isLineBreak ch))
  else
    none

end Cursor

namespace Parser

/-- One comment, or nothing once the next token is reached. -/
def comment (markup : Bool) : Parser (Option Node) := do
  let c ← get
  match if markup then c.markupComment? else none with
  | some (node, c) =>
    set c
    return node
  | none =>
    let c := c.skipWhile isBlank
    match c.comment? with
    | some (node, c) =>
      set c
      return node
    | none =>
      set c
      return none

/-- Moves to the next token where an operand may start, and yields the comments on the way. -/
def trivia : Parser (List Node) := many (comment true)

/-- Moves to the next token where an operator may follow, and yields the comments on the way. -/
def plainTrivia : Parser (List Node) := many (comment false)

end Parser

end NotebookCell.Script

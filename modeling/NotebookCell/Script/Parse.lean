import NotebookCell.Script.Grammar.Statement

/-!
# Reading a script

The grammar's entry points are tied together up to a depth of nesting. Every level of nesting
reads a character or goes from a statement to its first expression, so a depth of twice the length
of the text is never reached.
-/

namespace NotebookCell.Script

open NotebookCell.Tree

/-- The grammar, with at most `depth` constructs inside each other. -/
def parsers : (depth : Nat) → Parsers
  | 0 => .none
  | depth + 1 =>
    let sub := parsers depth
    { expression := Parser.expression sub
      construct := Parser.construct sub
      markup := Parser.markup sub
      statement := Parser.statement sub
      opening := Parser.openingStatement sub }

namespace Parser

/-- Reads the line that names an interpreter, with the comments before it. -/
def hashBangLine : Parser (List Node) := do
  let before ← get
  let lead ← trivia
  let c ← get
  if c.startsWith "#!" then
    let after := c.skipWhile (· != '\n')
    set after
    return lead ++ [{ kind := .hashBangLine, start := c.pos, stop := after.pos }]
  else
    set before
    return []

/-- Reads a whole script. -/
def program (sub : Parsers) : Parser Node := do
  let lead ← hashBangLine
  let body ← statements sub
  require (← get).rest.isEmpty
  node .program 0 (lead ++ body)

end Parser

/-- The tree of a script, or nothing where the grammar rejects the text. -/
def parse? (text : List Char) : Option Node :=
  if text.contains '\x00' then none
  else
    match Parser.program (parsers (2 * text.length + 10)) (.ofText text) with
    | some (root, _) => if hasStrayDefault root then none else some root
    | none => none

end NotebookCell.Script

import NotebookCell.Script.Grammar.Basic

/-!
# Functions and blocks

A block may be followed by a place where a semicolon is supplied; that place, and the comments
before it, then belong to the block. Behind a block that stands as a statement no markup-style
comment is recognised before the next statement.
-/

namespace NotebookCell.Script

open NotebookCell.Tree

/-- The place where a semicolon is supplied, and the comments before it. The first argument bounds
the number of comments. -/
def Cursor.supplied? (operand : Bool) : List Char → Cursor → Option (List Node × Cursor)
  | bound, c =>
    if c.endsStatement operand then some ([], c)
    else
      match (c.skipWhile isBlank).comment?, bound with
      | some (node, c), _ :: bound => (supplied? operand bound c).map fun (nodes, c) =>
        (node :: nodes, c)
      | _, _ => none

namespace Parser

/-- Takes a supplied semicolon and the comments before it, where there is one. -/
def suppliedSemicolon (operand : Bool) : Parser (List Node) := do
  let c ← get
  match c.supplied? operand c.rest with
  | some (gap, c) =>
    set c
    return gap
  | none => return []

/-- Refuses a markup-style comment behind a statement that ended without a semicolon. -/
def noMarkupComment (operand : Bool) : Parser Unit := do
  let c ← get
  match c.nextToken? (fun c => c.endsStatement operand) c.rest with
  | some (_, c) => require (!c.startsWith "<!--" && !c.startsWith "-->")
  | none => return ()

/-- Reads a statement and the comments behind it; nothing at a closing brace or the end. -/
def statementStep (statement : Parser Node) : Parser (Option (List Node)) := do
  let c ← get
  if c.rest.isEmpty || c.startsWith "\x7d" then
    return none
  else
    let node ← statement
    return some (node :: (← trivia))

/-- Reads statements up to a closing brace or the end, with the comments around them. -/
def statements (sub : Parsers) : Parser (List Node) := do
  let lead ← trivia
  return lead ++ (← many (statementStep sub.statement)).flatten

/-- Reads a block. `operand` tells whether an operator could follow it. -/
def block (sub : Parsers) (operand : Bool) : Parser Node := do
  let start ← position
  literal "\x7b"
  let body ← statements sub
  literal "\x7d"
  let gap ← suppliedSemicolon operand
  node .statementBlock start (body ++ gap)

/-- Reads a block where an object could stand. `operand` tells of its statements whether an operator
could follow it. -/
def ambiguousBlock (sub : Parsers) (operand : List Node → Bool) : Parser Node := do
  let start ← position
  literal "\x7b"
  let lead ← trivia
  let first ← statementStep sub.opening
  let body := lead ++ first.getD [] ++ (← many (statementStep sub.statement)).flatten
  literal "\x7d"
  let gap ← suppliedSemicolon (operand body)
  node .statementBlock start (body ++ gap)

/-- Reads formal parameters. -/
def parameters (sub : Parsers) : Parser Node := do
  let start ← position
  let items ← commaList "(" ")" (element sub)
  require (withoutHoles items)
  let patterns ← ofOption (asPatterns? (items.filterMap id))
  node .formalParameters start patterns

/-- Reads a function from the word `function` on. `start` and `lead` are what came before it. The
result is an expression; a named one becomes a declaration where a statement asks for it. -/
def functionLiteral (sub : Parsers) (start : Nat) (lead : List Node) : Parser Node := do
  keyword "function"
  let gap ← trivia
  let generator := (← get).startsWith "*"
  let gap' ← if generator then (do literal "*"; trivia) else pure []
  let named := !(← get).seesWord ""
  let names ← if named then (do return (← name .identifier).as .name :: (← trivia)) else pure []
  let params ← parameters sub
  let gap'' ← trivia
  let body ← block sub true
  node (if generator then .generatorFunction else .functionExpression) start
    (lead ++ gap ++ gap' ++ names ++ [params.as .parameters] ++ gap'' ++ [body])

end Parser

end NotebookCell.Script

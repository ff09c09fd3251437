import NotebookCell.Script.Grammar.Module

/-!
# Loops

A `for` header is read as one over the elements of a value if it can be, and as one with an
initialiser, a condition and a step otherwise.
-/

namespace NotebookCell.Script

open NotebookCell.Tree

namespace Parser

/-! ## Conditions -/

/-- Reads a statement that is a keyword, a condition in parentheses and a statement. -/
def guarded (sub : Parsers) (kind : Kind) (text : String) : Parser Node := do
  let start ← position
  keyword text
  let gap ← trivia
  let condition ← parenthesized sub
  let gap' ← trivia
  let body ← sub.statement
  node kind start (gap ++ [condition] ++ gap' ++ [body])

/-- Reads a `do` loop; its semicolon may be left out. -/
def doStatement (sub : Parsers) : Parser Node := do
  let start ← position
  keyword "do"
  let gap₁ ← trivia
  let body ← sub.statement
  let gap₂ ← trivia
  keyword "while"
  let gap₃ ← trivia
  let condition ← parenthesized sub
  let gap₄ ← optional (semicolon false)
  node .doStatement start (gap₁ ++ [body] ++ gap₂ ++ gap₃ ++ [condition] ++ gap₄.getD [])

/-! ## Over the elements of a value -/

/-- The target of a loop out of the expression in its place. -/
def loopTarget? (node : Node) : Option Node :=
  match node.kind with
  | .object | .array => asPattern? node
  | .identifier | .undefinedWord | .memberExpression | .subscriptExpression
  | .parenthesizedExpression => some node
  | _ => none

/-- The keyword of a loop variable, kept as a node. -/
def loopKeyword (text : String) : Parser Node := do
  let start ← position
  keyword text
  let node ← node (.token text) start []
  return { node.as .kind with named := false }

/-- Reads a loop variable with `let` or `const`; a supplied semicolon may follow it. -/
def blockVariable (sub : Parsers) (text : String) : Parser (List Node) := do
  let word ← loopKeyword text
  let gap ← trivia
  let target ← binding sub
  let gap' ← suppliedSemicolon false
  return [word] ++ gap ++ [target.as .left] ++ gap'

/-- Reads a loop variable with `var` and its initial value, if any, with operators of at least
`level`. Under `asi` the header could be one with a step, and no semicolon may be due in it. -/
def functionVariable (sub : Parsers) (level : Nat) (asi : Bool) : Parser (List Node) := do
  let word ← loopKeyword "var"
  let gap ← trivia
  let target ← binding sub
  let head := [word] ++ gap ++ [target.as .left]
  let c ← get
  match c.nextToken? (fun c => asi && c.endsStatement false) c.rest with
  | some (gap, c) =>
    if c.startsWith "=" then
      set c
      literal "="
      let gap' ← trivia
      let value ← sub.expression level asi
      require (← lookahead asi).isSome
      return head ++ gap ++ gap' ++ [value.as .value]
    else
      return head
  | none => failure

/-- Reads the rest of a loop over elements behind its variable. -/
def elementsRest (sub : Parsers) (start : Nat) (lead : List Node) : Parser Node := do
  let gap₁ ← plainTrivia
  keyword "in" <|> keyword "of"
  let gap₂ ← trivia
  let value ← expressions sub false
  let gap₃ ← plainTrivia
  literal ")"
  let gap₄ ← trivia
  let body ← sub.statement
  node .forInStatement start (lead ++ gap₁ ++ gap₂ ++ [value] ++ gap₃ ++ gap₄ ++ [body])

/-- Reads a loop over elements from its parenthesis on. -/
def elementsLoop (sub : Parsers) (asi : Bool) (start : Nat) (lead : List Node) :
    Parser Node := do
  literal "("
  let gap ← trivia
  let rest (header : Parser (List Node)) : Parser Node := do
    let target ← header
    elementsRest sub start (lead ++ gap ++ target)
  let targetOf (operand : Parser Node) : Parser Node := rest do
    let target ← ofOption (loopTarget? (← operand))
    return [target.as .left]
  let plain := targetOf (chain sub false) <|> targetOf (primary sub false false)
  match (← get).word with
  | "var" =>
    rest (functionVariable sub Level.lowest asi) <|> rest (functionVariable sub 9 asi)
  | "const" => rest (blockVariable sub "const")
  | "let" => rest (blockVariable sub "let") <|> plain
  | _ => plain

/-! ## With a step -/

/-- Reads an expression and a semicolon, or a semicolon alone as an empty statement. -/
def clause (sub : Parsers) : Parser (List Node) := do
  let start ← position
  if (← get).startsWith ";" then
    literal ";"
    return [← node .emptyStatement start []]
  else
    let value ← expressions sub false
    let gap ← plainTrivia
    literal ";"
    return value :: gap

/-- Reads a loop with a step from its parenthesis on. -/
def steppedLoop (sub : Parsers) (start : Nat) (lead : List Node) : Parser Node := do
  literal "("
  let gap₁ ← trivia
  let first ← match (← get).word with
    | "var" => do pure [← declareVariables sub .variableDeclaration "var"]
    | "const" => do pure [← declareVariables sub .lexicalDeclaration "const"]
    | "let" => (do pure [← declareVariables sub .lexicalDeclaration "let"]) <|> clause sub
    | _ => clause sub
  let gap₂ ← trivia
  let condition ← clause sub
  let gap₃ ← trivia
  let step ← if (← get).startsWith ")" then pure [] else do
    let value ← expressions sub false
    pure (value :: (← plainTrivia))
  literal ")"
  let gap₄ ← trivia
  let body ← sub.statement
  node .forStatement start
    (lead ++ gap₁ ++ first ++ gap₂ ++ condition ++ gap₃ ++ step ++ gap₄ ++ [body])

/-- Reads a `for` loop. -/
def forLoop (sub : Parsers) : Parser Node := do
  let start ← position
  keyword "for"
  let gap ← trivia
  let c ← get
  if c.seesWord "await" then
    keyword "await"
    let word ← node .awaitWord c.pos []
    let gap' ← trivia
    elementsLoop sub false start (gap ++ [{ word with named := false }] ++ gap')
  else
    elementsLoop sub true start gap <|> steppedLoop sub start gap

end Parser

end NotebookCell.Script

import NotebookCell.Script.Grammar.Loop

/-!
# Statements

The first word or character of a statement selects its form. A brace begins a block if the text
can be read so, and an object otherwise; a word before a colon is a label.
-/

namespace NotebookCell.Script

open NotebookCell.Tree

namespace Parser

/-! ## Expressions as statements -/

/-- Reads the rest of an expression statement behind its first expression. -/
def expressionRest (sub : Parsers) (first : Node) : Parser Node := do
  let value ← sequenceFrom sub true first
  let gap ← semicolon true
  node .expressionStatement value.start (value :: gap)

/-- Reads an expression statement. -/
def expressionStatement (sub : Parsers) : Parser Node := do
  expressionRest sub (← sub.expression Level.lowest true)

/-- Reads a block that no operator follows. -/
def blockAlone (sub : Parsers) : Parser Node := do
  let body ← ambiguousBlock sub fun statements => statements.all Node.isRemark
  match ← if body.children.all Node.isRemark then lookahead true else lookaheadPlain with
  | some (_, c) => require (!continuesOperand c)
  | none => pure ()
  return body

/-- Reads a statement that begins with a brace. -/
def braceStatement (sub : Parsers) : Parser Node := do
  let node ← blockOrElse sub (blockAlone sub) (expressionStatement sub)
  if node.kind == .statementBlock then
    noMarkupComment (node.children.all Node.isRemark)
  return node

/-- Whether the word can be a label. -/
def isLabel (word : String) : Bool :=
  word == "export" ||
    !(reservedWords.contains word || ["", "yield", "undefined", "using"].contains word)

/-- Reads a labelled statement. -/
def labeledStatement (sub : Parsers) : Parser Node := do
  let label ← word .statementIdentifier
  let gap ← plainTrivia
  literal ":"
  let gap' ← trivia
  let body ← sub.statement
  node .labeledStatement label.start ([label] ++ gap ++ gap' ++ [body])

/-- Whether a word and a colon are at the cursor. -/
def seesColon : Parser Bool := do
  let c ← get
  let test : Parser Unit := do
    let _ ← word .statementIdentifier
    let _ ← plainTrivia
    literal ":"
  let answer ← optional test
  set c
  return answer.isSome

/-! ## Branches -/

/-- Reads an `if` statement and its alternative. -/
def ifStatement (sub : Parsers) : Parser Node := do
  let first ← guarded sub .ifStatement "if"
  let c ← get
  let gap ← trivia
  let start ← position
  if (← get).seesWord "else" then
    keyword "else"
    let gap' ← trivia
    let body ← sub.statement
    let clause ← node .elseClause start (gap' ++ [body])
    node .ifStatement first.start (first.children ++ gap ++ [clause])
  else
    set c
    return first

/-- Reads the next statement of a case; nothing where the case ends. -/
def caseStep (sub : Parsers) : Parser (Option (List Node)) := do
  let before ← get
  let gap ← trivia
  let c ← get
  if c.rest.isEmpty || c.startsWith "\x7d" || c.seesWord "case" || c.seesWord "default" then
    set before
    return none
  else
    return some (gap ++ [← sub.statement])

/-- Reads one case of a switch and the comments behind it; nothing at the closing brace. -/
def switchCase (sub : Parsers) : Parser (Option (List Node)) := do
  let c ← get
  if c.seesWord "case" then
    keyword "case"
    let gap ← trivia
    let value ← expressions sub false
    let gap' ← plainTrivia
    literal ":"
    let body ← many (caseStep sub)
    let case ← node .switchCase c.pos (gap ++ [value] ++ gap' ++ body.flatten)
    return some (case :: (← trivia))
  else if c.seesWord "default" then
    keyword "default"
    let gap ← trivia
    literal ":"
    let body ← many (caseStep sub)
    let case ← node .switchDefault c.pos (gap ++ body.flatten)
    return some (case :: (← trivia))
  else
    return none

/-- Reads a `switch` statement. -/
def switchStatement (sub : Parsers) : Parser Node := do
  let start ← position
  keyword "switch"
  let gap ← trivia
  let value ← parenthesized sub
  let gap' ← trivia
  let bodyStart ← position
  literal "\x7b"
  let lead ← trivia
  let cases ← many (switchCase sub)
  literal "\x7d"
  let body ← node .switchBody bodyStart (lead ++ cases.flatten)
  node .switchStatement start (gap ++ [value] ++ gap' ++ [body])

/-! ## Exceptions -/

/-- Reads a block of a `try` statement. -/
def handledBlock (sub : Parsers) : Parser Node := do
  let body ← block sub false
  noMarkupComment false
  return body

/-- Reads a clause behind the gap before it; nothing, without moving, where it does not follow. -/
def clauseAfter (text : String) (clause : Parser Node) : Parser (List Node) := do
  let c ← get
  let gap ← trivia
  if (← get).seesWord text then
    return gap ++ [← clause]
  else
    set c
    return []

/-- Reads a `catch` clause. -/
def catchClause (sub : Parsers) : Parser Node := do
  let start ← position
  keyword "catch"
  let gap ← trivia
  let param ← if (← get).startsWith "(" then do
      literal "("
      let gap₁ ← trivia
      let target ← binding sub
      let gap₂ ← plainTrivia
      literal ")"
      pure (gap₁ ++ [target.as .parameter] ++ gap₂ ++ (← trivia))
    else
      pure []
  let body ← handledBlock sub
  node .catchClause start (gap ++ param ++ [body])

/-- Reads a `finally` clause. -/
def finallyClause (sub : Parsers) : Parser Node := do
  let start ← position
  keyword "finally"
  let gap ← trivia
  let body ← handledBlock sub
  node .finallyClause start (gap ++ [body])

/-- Reads a `try` statement; both clauses may be left out. -/
def tryStatement (sub : Parsers) : Parser Node := do
  let start ← position
  keyword "try"
  let gap ← trivia
  let body ← handledBlock sub
  let handler ← clauseAfter "catch" (catchClause sub)
  let final ← clauseAfter "finally" (finallyClause sub)
  node .tryStatement start (gap ++ [body] ++ handler ++ final)

/-! ## Jumps -/

/-- Reads `break` or `continue` with its label. -/
def jump (kind : Kind) (text : String) : Parser Node := do
  let start ← position
  keyword text
  let label ← match ← lookaheadPlain with
    | some (gap, c) =>
      if c.seesWord "" then pure [] else do
        set c
        pure (gap ++ [← name .statementIdentifier])
    | none => pure []
  let gap ← semicolon false
  node kind start (label ++ gap)

/-- Reads a `debugger` statement. -/
def debuggerStatement : Parser Node := do
  let start ← position
  keyword "debugger"
  let gap ← semicolon false
  node .debuggerStatement start gap

/-- Reads a `return` statement. -/
def returnStatement (sub : Parsers) : Parser Node := do
  let start ← position
  keyword "return"
  match ← lookaheadPlain with
  | some (gap, c) =>
    if c.startsWith ";" then
      let gap ← semicolon false
      node .returnStatement start gap
    else
      set c
      let value ← expressions sub true
      let gap' ← semicolon true
      node .returnStatement start (gap ++ [value] ++ gap')
  | none =>
    let gap ← semicolon false
    node .returnStatement start gap

/-- Reads a `throw` statement. -/
def throwStatement (sub : Parsers) : Parser Node := do
  let start ← position
  keyword "throw"
  let gap ← trivia
  let value ← expressions sub true
  let gap' ← semicolon true
  node .throwStatement start (gap ++ [value] ++ gap')

/-! ## Words with several uses -/

/-- Reads a statement that begins with `export`. -/
def exportOrName (sub : Parsers) : Parser Node := do
  let c ← get
  let after := c.skip 6
  match after.nextToken? (fun c => c.endsStatement true) after.rest with
  | some (_, next) =>
    if beginsExport next then exportStatement sub c.pos [] else expressionStatement sub
  | none => expressionStatement sub

/-- Reads a statement that begins with `import`. -/
def importOrCall (sub : Parsers) : Parser Node := do
  let after := (← get).skip 6
  match after.nextToken? (fun _ => false) after.rest with
  | some (_, c) =>
    if ["(", ".", "?."].any c.startsWith then expressionStatement sub else importStatement sub
  | none => failure

/-- Reads a statement that begins with a decorator. -/
def decorated (sub : Parsers) : Parser Node := do
  let c ← get
  let lead ← decorators sub
  if (← get).seesWord "export" then
    exportStatement sub c.pos lead
  else
    require ((← get).seesWord "class")
    set c
    definitionOr sub (expressionRest sub)

/-- Reads a statement that begins with a word and not with a label. -/
def wordStatement (sub : Parsers) : Parser Node := do
  match (← get).word with
  | "var" => declareVariables sub .variableDeclaration "var"
  | "const" => declareVariables sub .lexicalDeclaration "const"
  | "let" => do
    if ← letDeclares then declareVariables sub .lexicalDeclaration "let"
    else expressionStatement sub
  | "using" => declareVariables sub .usingDeclaration "using"
  | "await" => do if ← awaitDeclares then awaitUsing sub else expressionStatement sub
  | "import" => importOrCall sub
  | "export" => exportOrName sub
  | "if" => ifStatement sub
  | "switch" => switchStatement sub
  | "for" => forLoop sub
  | "while" => guarded sub .whileStatement "while"
  | "with" => guarded sub .withStatement "with"
  | "do" => doStatement sub
  | "try" => tryStatement sub
  | "break" => jump .breakStatement "break"
  | "continue" => jump .continueStatement "continue"
  | "return" => returnStatement sub
  | "throw" => throwStatement sub
  | "debugger" => debuggerStatement
  | _ =>
    if ← seesDefinition then definitionOr sub (expressionRest sub) else expressionStatement sub

/-- Reads a statement. -/
def statement (sub : Parsers) : Parser Node := do
  let c ← get
  match c.rest with
  | '\x7b' :: _ => braceStatement sub
  | ';' :: _ => do
    literal ";"
    node .emptyStatement c.pos []
  | '@' :: _ => decorated sub
  | _ =>
    if isLabel c.word && (← seesColon) then labeledStatement sub
    else if c.seesWord "" then expressionStatement sub
    else wordStatement sub

/-- The reserved words that begin neither a statement nor an expression. -/
def innerWords : List String :=
  ["case", "catch", "default", "else", "extends", "finally", "in", "instanceof"]

/-- Reads the first statement behind a brace that could also open an object. Since any word could be
a key there, the words that begin nothing else are names. -/
def openingStatement (sub : Parsers) : Parser Node := do
  if !innerWords.contains (← get).word then
    statement sub
  else if ← seesColon then
    labeledStatement sub
  else
    let id ← word .identifier
    expressionRest sub (← continueFrom sub Level.lowest true id)

end Parser

end NotebookCell.Script

import NotebookCell.Script.Grammar.Expression

/-!
# Declarations

Variables, functions and classes. A named function or class at the start of a statement is
a declaration unless an operator follows it that cannot begin a statement.
-/

namespace NotebookCell.Script

open NotebookCell.Tree

/-- Whether the text continues an operand and cannot begin a statement. -/
def continuesOperand (c : Cursor) : Bool :=
  match c.rest with
  | '.' :: text => !text.head?.any Char.isDigit
  | '<' :: text => text.head? == some '=' || text.head? == some '<'
  | '!' :: text => text.head? == some '='
  | '=' :: _ => true
  | ch :: _ => "?,*%^|&>".toList.contains ch || c.seesWord "in" || c.seesWord "instanceof"
  | [] => false

/-- The declaration that a function or class literal makes where a statement may stand. -/
def declarationKind? : Kind → Option Kind
  | .functionExpression => some .functionDeclaration
  | .generatorFunction => some .generatorFunctionDeclaration
  | .classExpression => some .classDeclaration
  | _ => none

namespace Parser

/-! ## Variables -/

/-- Reads the name or the pattern that a declaration binds. -/
def binding (sub : Parsers) : Parser Node := do
  if (← get).seesWord "" then destructuring sub else name .identifier

/-- Reads one declarator, and tells whether it ends in a value. -/
def declarator (sub : Parsers) : Parser (Node × Bool) := do
  let target ← binding sub
  match ← lookaheadPlain with
  | some (gap, c) =>
    if c.startsWith "=" then
      set c
      literal "="
      let gap' ← trivia
      let value ← sub.expression Level.lowest true
      return (← node .variableDeclarator target.start
        ([target.as .name] ++ gap ++ gap' ++ [value.as .value]), true)
    else
      return (← node .variableDeclarator target.start [target.as .name], false)
  | none => return (← node .variableDeclarator target.start [target.as .name], false)

/-- Reads a comma and the declarator behind it. -/
def declaratorStep (sub : Parsers) (before : List Node × Bool) :
    Parser (Option (List Node × Bool)) := do
  match ← if before.2 then lookahead true else lookaheadPlain with
  | some (gap, c) =>
    if c.startsWith "," then
      set c
      literal ","
      let gap' ← trivia
      let (next, valued) ← declarator sub
      return some (before.1 ++ gap ++ gap' ++ [next], valued)
    else
      return none
  | none => return none

/-- Reads the declarators of a declaration and its end. `start` and `lead` are its keywords. -/
def declarators (sub : Parsers) (kind : Kind) (start : Nat) (lead : List Node) :
    Parser Node := do
  let gap ← trivia
  let (first, valued) ← declarator sub
  let (list, valued) ← iterate (declaratorStep sub) ([first], valued)
  let gap' ← semicolon valued
  node kind start (lead ++ gap ++ list ++ gap')

/-- Reads a declaration of variables that starts with the given keyword. -/
def declareVariables (sub : Parsers) (kind : Kind) (text : String) : Parser Node := do
  let start ← position
  keyword text
  declarators sub kind start []

/-- Whether the word `let` at the cursor declares something: a name or a pattern follows on. -/
def letDeclares : Parser Bool := do
  let after := (← get).skip 3
  match after.nextToken? (fun c => c.endsStatement true) after.rest with
  | some (_, c) =>
    let named := !(["", "in", "instanceof"].contains c.word)
    return named || c.startsWith "[" || c.startsWith "\x7b"
  | none => return false

/-- Whether the word `await` at the cursor declares something: the word `using` follows on. -/
def awaitDeclares : Parser Bool := do
  let after := (← get).skip 5
  match after.nextToken? (fun c => c.endsStatement true) after.rest with
  | some (_, c) => return c.seesWord "using"
  | none => return false

/-- Reads a `using` declaration with `await` in front. -/
def awaitUsing (sub : Parsers) : Parser Node := do
  let start ← position
  keyword "await"
  let gap ← trivia
  keyword "using"
  declarators sub .usingDeclaration start gap

/-! ## Functions and classes -/

/-- Reads the function or class literal at the cursor. -/
def definition (sub : Parsers) : Parser Node := do
  let start ← position
  let lead ← decorators sub
  let c ← get
  if c.seesWord "async" then
    keyword "async"
    let gap ← plainTrivia
    functionLiteral sub start (lead ++ gap)
  else if c.seesWord "function" then
    functionLiteral sub start lead
  else
    classLiteral sub start lead

/-- Whether a definition that has been read stands as a declaration. -/
def standsAlone (definition : Node) : Parser Bool := do
  if (definition.child? .name).isNone then
    return false
  match ← lookahead true with
  | some (_, c) => return !continuesOperand c
  | none => return true

/-- Reads a function or class definition: on its own as a declaration, otherwise as the start of
what `continued` makes of an expression. -/
def definitionOr (sub : Parsers) (continued : Node → Parser Node) : Parser Node := do
  let literal ← definition sub
  let kind := if ← standsAlone literal then declarationKind? literal.kind else none
  match kind with
  | some kind =>
    let gap ← suppliedSemicolon true
    noMarkupComment true
    node kind literal.start (literal.children ++ gap)
  | none => continued (← continueFrom sub Level.lowest true literal)

/-- Whether a function or class definition starts at the cursor. -/
def seesDefinition : Parser Bool := do
  let c ← get
  if c.seesWord "function" || c.seesWord "class" || c.startsWith "@" then
    return true
  else if c.seesWord "async" then
    let after := c.skip 5
    match after.nextToken? (fun c => c.endsStatement true) after.rest with
    | some (_, next) => return next.seesWord "function"
    | none => return false
  else
    return false

/-- Reads a declaration where nothing else may stand. -/
def declaration (sub : Parsers) : Parser Node := do
  let c ← get
  match c.word with
  | "var" => declareVariables sub .variableDeclaration "var"
  | "let" => declareVariables sub .lexicalDeclaration "let"
  | "const" => declareVariables sub .lexicalDeclaration "const"
  | "using" => declareVariables sub .usingDeclaration "using"
  | "await" => awaitUsing sub
  | _ => definitionOr sub fun _ => failure

end Parser

end NotebookCell.Script

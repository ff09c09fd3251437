import NotebookCell.Script.Grammar.Function

/-!
# Members of objects and classes

Words such as `get` and `static` are modifiers only when something that could be a name follows;
otherwise they are names themselves. In a class a supplied semicolon also settles the question in
favour of a name.
-/

namespace NotebookCell.Script

open NotebookCell.Tree

/-- The number of characters of the words `static get` at the end of a line, the line break and
blanks up to it included; zero where they are not at the start of the text. -/
def staticGetLength (text : List Char) : Nat :=
  let blank (c : Char) : Bool := inRange 0x09 0x0d c || c == ' '
  let between := (text.drop 6).takeWhile blank
  let behind := ((text.drop (9 + between.length)).takeWhile blank).reverse.dropWhile (· != '\n')
  if "static".toList.isPrefixOf text && !between.isEmpty &&
      "get".toList.isPrefixOf (text.drop (6 + between.length)) && !behind.isEmpty then
    9 + between.length + behind.length
  else 0

namespace Parser

/-- The next token where an operand may start, and the comments before it. Does not move. -/
def peekTrivia : Parser (List Node × Cursor) := do
  let c ← get
  let gap ← trivia
  let next ← get
  set c
  return (gap, next)

/-! ## Names and modifiers -/

/-- Reads a computed name. -/
def computedName (sub : Parsers) : Parser Node := do
  let start ← position
  literal "["
  let gap ← trivia
  let inner ← sub.expression Level.lowest false
  let gap' ← plainTrivia
  literal "]"
  node .computedPropertyName start (gap ++ [inner] ++ gap')

/-- Reads the name of a property: any word, a private name, a string, a number or an expression
in brackets. -/
def propertyName (sub : Parsers) : Parser Node := do
  match (← get).rest with
  | '[' :: _ => computedName sub
  | '#' :: _ => privateName
  | '\x22' :: _ => string
  | '\x27' :: _ => string
  | c :: _ => if c.isDigit || c == '.' then number else word .propertyIdentifier
  | [] => failure

/-- Reads the modifier `text` and the comments behind it; nothing where it is absent or itself
a name. -/
def modifier (inClass : Bool) (text : String) : Parser (Option (List Node)) := do
  let c ← get
  if !c.seesWord text then
    return none
  literal text
  let marks := if inClass then "(=;\x7d".toList else "(,:=\x7d".toList
  let next ← if inClass then lookaheadPlain else some <$> peekTrivia
  match next with
  | some (gap, after) =>
    if after.rest.isEmpty || after.sees marks.contains then
      set c
      return none
    else
      set after
      return some gap
  | none =>
    set c
    return none

/-- Reads a star and the comments behind it. -/
def star : Parser (Option (List Node)) := do
  if (← get).startsWith "*" then
    literal "*"
    return some (← trivia)
  else
    return none

/-- Reads the modifiers of a member. The second component tells whether they allow only
a method. -/
def modifiers (inClass : Bool) : Parser (List Node × Bool) := do
  let c ← get
  let pair := staticGetLength c.rest
  let lead ← if pair == 0 then modifier inClass "static"
    else (do set (c.skip pair); some <$> trivia)
  let background ← modifier inClass "async"
  let generator ← star
  -- behind `async` there is a method, and no supplied semicolon
  let inField := inClass && background.isNone
  let getter ← if generator.isSome then pure none else modifier inField "get"
  let setter ← if generator.isSome || getter.isSome then pure none else modifier inField "set"
  let parts := [background, generator, getter, setter]
  return (lead.getD [] ++ (parts.filterMap id).flatten,
    pair != 0 || parts.any (·.isSome) || (lead.isSome && !inClass))

/-- Reads the parameters and the body of a method whose name has been read. -/
def methodRest (sub : Parsers) (start : Nat) (lead : List Node) : Parser Node := do
  let params ← parameters sub
  let gap ← trivia
  let body ← block sub false
  node .methodDefinition start (lead ++ [params.as .parameters] ++ gap ++ [body])

/-! ## Decorators -/

/-- Reads a dot and a name behind a decorator's name. -/
def decoratorStep (left : Node) : Parser (Option Node) := do
  let c ← get
  let gap ← plainTrivia
  let dot ← get
  if dot.startsWith "." && !(dot.skip 1).sees Char.isDigit then
    literal "."
    let gap' ← trivia
    let property ← name .propertyIdentifier
    return some (← node .memberExpression left.start ([left] ++ gap ++ gap' ++ [property]))
  else
    set c
    return none

/-- Reads a decorator: a dotted name with at most one list of arguments. -/
def decorator (sub : Parsers) : Parser Node := do
  let start ← position
  literal "@"
  let gap ← trivia
  let path ← iterate decoratorStep (← name .identifier)
  let c ← get
  let gap' ← plainTrivia
  let target ← if (← get).startsWith "(" then (do
      let args ← arguments sub
      node .callExpression path.start ([path.as .function] ++ gap' ++ [args.as .arguments]))
    else (do
      set c
      pure path)
  node .decorator start (gap ++ [target])

/-- Reads the decorators here and the comments behind each. -/
def decorators (sub : Parsers) : Parser (List Node) := do
  let parts ← many do
    if (← get).startsWith "@" then
      let node ← decorator sub
      return some (node :: (← trivia))
    else
      return none
  return parts.flatten

/-! ## Objects -/

/-- Reads a member with a name in front. -/
def namedMember (sub : Parsers) : Parser Node := do
  let start ← position
  let marks ← decorators sub
  let (lead, methodOnly) ← modifiers false
  let isWord := !(← get).seesWord ""
  let key ← propertyName sub
  let (gap, next) ← peekTrivia
  if next.startsWith "(" then
    set next
    methodRest sub start (marks ++ lead ++ [key.as .name] ++ gap)
  else
    require (marks.isEmpty && !methodOnly)
    if next.startsWith ":" then
      set next
      literal ":"
      let gap' ← trivia
      let value ← element sub
      node .pair start ([key] ++ gap ++ gap' ++ [value.as .value])
    else
      require isWord
      if next.startsWith "=" then
        set next
        literal "="
        let gap' ← trivia
        let value ← sub.expression Level.lowest false
        let left := { key with kind := .shorthandPropertyIdentifierPattern }
        node .objectAssignmentPattern start ([left.as .left] ++ gap ++ gap' ++ [value])
      else
        return { key with kind := .shorthandPropertyIdentifier }

/-- Reads a nested pattern with a default, which only the pattern reading of an object allows. -/
def patternDefault (sub : Parsers) : Parser Node := do
  let value ← sub.expression Level.lowest false
  require (value.kind == .assignmentExpression)
  require (value.children.any fun child => child.field == some .left &&
    (child.kind == .objectPattern || child.kind == .arrayPattern))
  return { value with kind := .objectAssignmentPattern }

/-- Reads a member of an object. -/
def objectMember (sub : Parsers) : Parser Node := do
  let c ← get
  if c.startsWith "..." then spread sub
  else if c.startsWith "\x7b" then patternDefault sub
  else if c.startsWith "[" then namedMember sub <|> patternDefault sub
  else namedMember sub

/-- Reads an object literal; members may be left out. -/
def object (sub : Parsers) : Parser Node := do
  let start ← position
  let items ← commaList "\x7b" "\x7d" (objectMember sub)
  node .object start (items.filterMap id)

/-- Whether the braces at the cursor hold a single default and no comma. -/
def seesLoneDefault (sub : Parsers) : Parser Bool := do
  let c ← get
  let test : Parser Unit := do
    literal "\x7b"
    let _ ← trivia
    let member ← objectMember sub
    require (member.kind == .objectAssignmentPattern)
    let _ ← plainTrivia
    literal "\x7d"
  let answer ← optional test
  set c
  return answer.isSome

/-! ## Classes -/

/-- Reads a static block; nothing where none starts. -/
def staticBlock (sub : Parsers) : Parser (Option Node) := do
  let c ← get
  if !c.seesWord "static" then
    return none
  literal "static"
  match ← lookaheadPlain with
  | some (gap, next) =>
    if next.startsWith "\x7b" then
      set next
      let body ← block sub false
      return some (← node .classStaticBlock c.pos (gap ++ [body]))
    else
      set c
      return none
  | none =>
    set c
    return none

/-- Reads a method or a field, and the end of the field. -/
def methodOrField (sub : Parsers) : Parser (List Node) := do
  let start ← position
  let marks ← decorators sub
  let (lead, methodOnly) ← modifiers true
  let key ← propertyName sub
  let next ← if methodOnly then some <$> peekTrivia else lookaheadPlain
  let field (children : List Node) : Parser Node :=
    node .fieldDefinition start (marks ++ lead ++ [key] ++ children)
  match next with
  | some (gap, next) =>
    if next.startsWith "(" then
      set next
      let method ← methodRest sub start (marks ++ lead ++ [key.as .name] ++ gap)
      noMarkupComment false
      return [method]
    else
      require (!methodOnly)
      if next.startsWith "=" then
        set next
        literal "="
        let gap' ← trivia
        let value ← sub.expression Level.lowest true
        let field ← field (gap ++ gap' ++ [value.as .value])
        return field :: (← semicolon true)
      else
        let field ← field []
        return field :: (← semicolon false)
  | none =>
    let field ← field []
    return field :: (← semicolon false)

/-- Reads a member of a class and the comments behind it. -/
def classMember (sub : Parsers) : Parser (Option (List Node)) := do
  let c ← get
  if c.rest.isEmpty || c.startsWith "\x7d" then
    return none
  else if c.startsWith ";" then
    literal ";"
    return some (← trivia)
  else
    match ← staticBlock sub with
    | some node =>
      noMarkupComment false
      return some (node :: (← trivia))
    | none =>
      let nodes ← methodOrField sub
      return some (nodes ++ (← trivia))

/-- Reads the body of a class. -/
def classBody (sub : Parsers) : Parser Node := do
  let start ← position
  literal "\x7b"
  let lead ← trivia
  let members ← many (classMember sub)
  literal "\x7d"
  node .classBody start (lead ++ members.flatten)

/-- Reads the heritage of a class and the comments behind it. -/
def heritage (sub : Parsers) : Parser (List Node) := do
  if (← get).seesWord "extends" then
    let start ← position
    literal "extends"
    let gap ← trivia
    let value ← sub.expression Level.lowest false
    let clause ← node .classHeritage start (gap ++ [value])
    return clause :: (← plainTrivia)
  else
    return []

/-- Reads a class from the word `class` on; `start` and `lead` are its decorators. -/
def classLiteral (sub : Parsers) (start : Nat) (lead : List Node) : Parser Node := do
  keyword "class"
  let gap ← trivia
  let c ← get
  let names ← if c.seesWord "" || c.seesWord "extends" then pure []
    else (do return (← name .identifier).as .name :: (← trivia))
  let base ← heritage sub
  let body ← classBody sub
  node .classExpression start (lead ++ gap ++ names ++ base ++ [body])

end Parser

end NotebookCell.Script

import NotebookCell.Script.Grammar.Markup

/-!
# Operands

Primary expressions, and the accesses and calls that may follow them. A list in parentheses is
read once: an arrow behind it makes it parameters, otherwise it must be an expression.
-/

namespace NotebookCell.Script

open NotebookCell.Tree

/-- Whether the text begins an operand. -/
def beginsOperand (text : List Char) : Bool :=
  match text with
  | [] => false
  | c :: rest =>
    if wordLength text != 0 then
      let word := String.ofList (text.take (wordLength text))
      word != "in" && word != "instanceof"
    else if c.isDigit then true
    else if c == '.' then rest.head?.any Char.isDigit
    else if c == '!' then rest.head? != some '='
    else if c == '<' then rest.head? != some '=' && rest.head? != some '<'
    else "\x22\x27\x60([\x7b/+-~@#".toList.contains c

/-- The expressions that may be tagged, called through an optional chain or constructed. -/
def isPrimary : Kind → Bool
  | .updateExpression | .newExpression | .jsxElement | .jsxSelfClosingElement | .yieldExpression
  | .awaitExpression | .unaryExpression | .binaryExpression | .assignmentExpression => false
  | _ => true

namespace Parser

/-! ## Arrow functions -/

/-- What the text behind a brace says about it where a block and an object may stand. -/
inductive BraceReading where
  /-- A word and a colon: an object if it can be one, else a block with a label. -/
  | key
  /-- A word that is read as a name or the start of a statement: a block. -/
  | block
  /-- Anything else: a block if it can be one, else an object. -/
  | open

/-- The words that are read as part of a statement right behind a brace that may open a block. -/
def statementWords : List String :=
  ["break", "class", "const", "continue", "debugger", "delete", "do", "false", "for", "function",
    "if", "import", "new", "null", "return", "super", "switch", "this", "throw", "true", "try",
    "typeof", "var", "void", "while", "with", "yield", "using", "undefined"]

/-- Looks behind the brace at the cursor without moving. -/
def braceReading : Parser BraceReading := do
  let before ← get
  literal "\x7b"
  let _ ← trivia
  let c ← get
  let first := c.word
  set (c.skip (wordLength c.rest))
  let next ← lookahead true
  set before
  if first == "" then
    return if c.startsWith "\x7b" then .block else .open
  else if statementWords.contains first then
    return .block
  else
    match next with
    | none => return .block
    | some (_, next) =>
      if next.startsWith ":" then return .key
      else return if next.startsWith "," then .block else .open

/-- Reads a construct that must not keep a default of a pattern. -/
def settled (p : Parser Node) : Parser Node := do
  let node ← p
  require (!hasStrayDefault node)
  return node

/-- Reads what begins with a brace at a place where a block and an object may stand. Braces around
a single default are always a block. -/
def blockOrElse (sub : Parsers) (asBlock asObject : Parser Node) : Parser Node := do
  match ← braceReading with
  | .key => settled asObject <|> asBlock
  | .block => asBlock
  | .open => asBlock <|> do
    require (!(← seesLoneDefault sub))
    asObject

/-- Reads the block of an arrow function. An assignment behind it makes it a pattern instead. -/
def arrowBlock (sub : Parsers) (asi : Bool) : Parser Node := do
  let body ← ambiguousBlock sub fun _ => true
  match ← lookahead asi with
  | some (_, c) => require (!c.startsWith "=" || c.startsWith "==")
  | none => pure ()
  return body

/-- Reads the arrow and the body of a function whose parameters have been read. -/
def arrowRest (sub : Parsers) (asi : Bool) (start : Nat) (lead : List Node) :
    Parser Node := do
  literal "=>"
  let gap ← trivia
  let value := sub.expression Level.lowest asi
  let body ← if (← get).startsWith "\x7b" then blockOrElse sub (arrowBlock sub asi) value else value
  node .arrowFunction start (lead ++ gap ++ [body])

/-- Reads the arrow behind `left`, if there is one, with the comments before it. -/
def arrowBehind (asi : Bool) : Parser (Option (List Node × Cursor)) := do
  match ← lookahead asi with
  | some (gap, c) => return if c.startsWith "=>" then some (gap, c) else none
  | none => return none

/-- Reads an expression in parentheses, or a function whose parameters they hold. -/
def group (sub : Parsers) (asi : Bool) : Parser Node := do
  let start ← position
  let items ← commaList "(" ")" (element sub)
  let nodes := items.filterMap id
  let stop ← position
  match ← arrowBehind asi with
  | some (gap, c) =>
    require (withoutHoles items)
    let patterns ← ofOption (asPatterns? nodes)
    let params : Node := { kind := .formalParameters, start, stop, children := patterns }
    set c
    arrowRest sub asi start ([params.as .parameters] ++ gap)
  | none =>
    let lead := nodes.takeWhile Node.isRemark
    let trail := (nodes.reverse.takeWhile Node.isRemark).reverse
    let inner := (nodes.drop lead.length).take (nodes.length - lead.length - trail.length)
    let elements := inner.filter fun node => !node.isRemark
    require (withoutHoles items && !elements.any (·.kind == .spreadElement))
    let commas := items.countP (·.isNone)
    match inner, inner.getLast? with
    | first :: rest, some last =>
      require (commas + 1 == elements.length)
      let value : Node := if rest.isEmpty then first else
        { kind := .sequenceExpression, start := first.start, stop := last.stop, children := inner }
      return { kind := .parenthesizedExpression, start, stop, children := lead ++ [value] ++ trail }
    | _, _ => failure

/-- Reads an identifier, or a function with that one parameter. -/
def identifier (sub : Parsers) (asi : Bool) : Parser Node := do
  let id ← name .identifier
  match ← arrowBehind asi with
  | some (gap, c) =>
    set c
    arrowRest sub asi id.start ([id.as .parameter] ++ gap)
  | none => return id

/-- Reads what begins with the word `async`: a function, or the word as a name. -/
def background (sub : Parsers) (asi constructing : Bool) : Parser Node := do
  let self ← word .identifier
  match ← lookahead asi with
  | none => return self
  | some (gap, c) =>
    if c.startsWith "=>" then
      set c
      arrowRest sub asi self.start ([self.as .parameter] ++ gap)
    else if c.seesWord "function" then
      set c
      functionLiteral sub self.start gap
    else if c.startsWith "(" then
      let before ← get
      set c
      let items ← commaList "(" ")" (element sub)
      let nodes := items.filterMap id
      let args : Node := { kind := .arguments, start := c.pos, stop := ← position,
                           children := nodes }
      match ← arrowBehind asi with
      | some (gap', c) =>
        require (withoutHoles items)
        let patterns ← ofOption (asPatterns? nodes)
        let params : Node := { args with kind := .formalParameters, children := patterns }
        set c
        arrowRest sub asi self.start (gap ++ [params.as .parameters] ++ gap')
      | none =>
        if constructing then
          set before
          return self
        else
          node .callExpression self.start ([self.as .function] ++ gap ++ [args.as .arguments])
    else if c.word != "export" && ("" :: reservedWords).contains c.word then
      return self
    else
      let before ← get
      set c
      let parameter ← word .identifier
      match ← arrowBehind false with
      | some (gap', c) =>
        set c
        arrowRest sub asi self.start (gap ++ [parameter.as .parameter] ++ gap')
      | none =>
        set before
        return self

/-! ## Primary expressions -/

/-- Reads `target` or `meta` behind a dot. -/
def metaRest (start : Nat) (property : String) : Parser Node := do
  let gap ← plainTrivia
  literal "."
  let gap' ← trivia
  keyword property
  node .metaProperty start (gap ++ gap')

/-- Reads what begins with the word `import` inside an expression. -/
def importOperand (sub : Parsers) : Parser Node := do
  let start ← position
  keyword "import"
  let stop ← position
  let c ← get
  let gap ← plainTrivia
  if (← get).startsWith "(" then
    let callee : Node := { kind := .importWord, start, stop }
    let args ← arguments sub
    node .callExpression start ([callee.as .function] ++ gap ++ [args.as .arguments])
  else if (← get).startsWith "?." then
    literal "?."
    let gap' ← trivia
    let property ← if (← get).startsWith "#" then privateName else word .propertyIdentifier
    let root : Node := { kind := .importWord, start, stop }
    node .memberExpression start ([root] ++ gap ++ gap' ++ [property])
  else
    set c
    metaRest start "meta"

/-- Reads a primary expression that begins with a word. -/
def wordOperand (sub : Parsers) (asi constructing : Bool) : Parser Node := do
  let start ← position
  match (← get).word with
  | "this" => word .thisWord
  | "super" => word .superWord
  | "true" => word .trueWord
  | "false" => word .falseWord
  | "null" => word .nullWord
  | "undefined" => word .undefinedWord
  | "function" => functionLiteral sub start []
  | "class" => classLiteral sub start []
  | "async" => background sub asi constructing
  | "import" => importOperand sub
  | "new" => do
    keyword "new"
    metaRest start "target"
  | "yield" => failure
  | "export" => do
    let id ← word .identifier
    match ← arrowBehind asi with
    | some (gap, c) =>
      set c
      arrowRest sub asi start ([id.as .parameter] ++ gap)
    | none => return id
  | _ => identifier sub asi

/-- Reads a primary expression. Under `constructing` it is what `new` constructs, so that
parentheses behind it are not its own. -/
def primary (sub : Parsers) (asi constructing : Bool) : Parser Node := do
  match (← get).rest with
  | '(' :: _ => group sub asi
  | '[' :: _ => array sub
  | '\x7b' :: _ => object sub
  | '\x22' :: _ => string
  | '\x27' :: _ => string
  | '\x60' :: _ => template sub
  | '/' :: _ => regex
  | '@' :: _ => do
    let start ← position
    let marks ← decorators sub
    classLiteral sub start marks
  | c :: _ => if c.isDigit || c == '.' then number else wordOperand sub asi constructing
  | [] => failure

/-! ## Accesses and calls -/

/-- Reads the name behind a dot. -/
def accessName (left : Node) (gap : List Node) : Parser Node := do
  let gap' ← trivia
  let property ← if (← get).startsWith "#" then privateName else word .propertyIdentifier
  node .memberExpression left.start ([left] ++ gap ++ gap' ++ [property])

/-- Reads an index in brackets. -/
def accessIndex (sub : Parsers) (left : Node) (gap : List Node) : Parser Node := do
  literal "["
  let gap' ← trivia
  let index ← expressions sub false
  let gap'' ← plainTrivia
  literal "]"
  node .subscriptExpression left.start ([left] ++ gap ++ gap' ++ [index] ++ gap'')

/-- Reads the arguments of a call. -/
def call (sub : Parsers) (left : Node) (gap : List Node) : Parser Node := do
  let args ← arguments sub
  node .callExpression left.start ([left.as .function] ++ gap ++ [args.as .arguments])

/-- Reads one access, call, tagged template or increment behind `left`; nothing where none
follows. -/
def access (sub : Parsers) (asi constructing update : Bool) (left : Node) :
    Parser (Option Node) := do
  match ← lookahead asi with
  | none => return none
  | some (gap, c) =>
    let tag := isPrimary left.kind || left.kind == .newExpression
    if constructing && left.kind == .newExpression && !c.startsWith "\x60" then
      return none
    match c.rest with
    | '.' :: _ =>
      set (c.skip 1)
      return some (← accessName left gap)
    | '?' :: '.' :: text =>
      if text.head?.any Char.isDigit then
        return none
      set (c.skip 2)
      let gap' ← trivia
      let c ← get
      if c.startsWith "(" then
        require (isPrimary left.kind)
        return some (← call sub left (gap ++ gap'))
      else if c.startsWith "[" then
        return some (← accessIndex sub left (gap ++ gap'))
      else
        return some (← accessName left (gap ++ gap'))
    | '[' :: _ =>
      set c
      return some (← accessIndex sub left gap)
    | '(' :: _ =>
      if constructing then
        return none
      set c
      return some (← call sub left gap)
    | '\x60' :: _ =>
      if !tag then
        return none
      set c
      let text ← template sub
      return some (← node .callExpression left.start
        ([left.as .function] ++ gap ++ [text.as .arguments]))
    | a :: b :: _ =>
      if update && (a == '+' || a == '-') && a == b then
        set (c.skip 2)
        return some (← node .updateExpression left.start ([left.as .argument] ++ gap))
      else
        return none
    | _ => return none

/-- Reads a construction from the word `new` on. -/
def construct (sub : Parsers) (asi : Bool) : Parser Node := do
  let start ← position
  keyword "new"
  let gap ← trivia
  let c ← get
  let inner ← if c.seesWord "new" then sub.construct asi <|> primary sub asi true
    else primary sub asi true
  let callee ← iterate (access sub asi true false) inner
  match ← lookahead asi with
  | some (gap', c) =>
    if c.startsWith "(" then
      set c
      let args ← arguments sub
      node .newExpression start (gap ++ [callee] ++ gap' ++ [args.as .arguments])
    else
      node .newExpression start (gap ++ [callee])
  | none => node .newExpression start (gap ++ [callee])

end Parser

end NotebookCell.Script

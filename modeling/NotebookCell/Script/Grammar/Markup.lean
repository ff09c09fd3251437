import NotebookCell.Script.Grammar.Member

/-!
# Markup elements

Elements written in angle brackets are expressions. Their names are ordinary identifiers, so they
refer to values, whatever their case; a name may hold hyphens. Closing names are not compared with
opening ones. Text between tags is free of braces and angle brackets, and an ampersand in it must
begin a character reference.
-/

namespace NotebookCell.Script

open NotebookCell.Tree

/-- An ASCII letter, underscore or dollar sign. -/
def isTagStart (c : Char) : Bool :=
  c.isAlpha || c == '_' || c == '$'

/-- The number of characters of a name with a hyphen at the start of the text; zero where the name
there has none. -/
def hyphenatedLength (text : List Char) : Nat :=
  let head := text.takeWhile fun c => isTagStart c || c.isDigit
  if text.head?.any isTagStart && (text.drop head.length).head? == some '-' then
    (text.takeWhile fun c => isTagStart c || c.isDigit || c == '-').length
  else 0

/-- The number of characters of a character reference such as `&nbsp;` or `&#xA0;`; zero where
there is none. -/
def characterReferenceLength (text : List Char) : Nat :=
  let closed (before : Nat) (most : Nat) (digits : Nat) : Nat :=
    if 0 < digits && digits ≤ most && (text.drop (before + digits)).head? == some ';' then
      before + digits + 1
    else 0
  match text with
  | '&' :: '#' :: x :: rest =>
    if x == 'x' || x == 'X' then closed 3 6 (rest.takeWhile isHexDigit).length
    else closed 2 5 ((x :: rest).takeWhile Char.isDigit).length
  | '&' :: rest => closed 1 30 (rest.takeWhile Char.isAlpha).length
  | _ => 0

/-- Whether an ampersand before this text must begin a character reference. -/
def referenceFollows (text : List Char) : Bool :=
  text.head?.any fun c => c == '#' || c.isAlpha

/-- Moves behind the closing quote of an attribute value. The first argument bounds the number of
steps. -/
def attributeEnd? (quote : Char) : List Char → Cursor → Option Cursor
  | [], _ => none
  | _ :: bound, c =>
    match c.rest with
    | [] => none
    | ch :: text =>
      if ch == quote then some (c.skip 1)
      else if ch == '&' then
        if referenceFollows text then
          match characterReferenceLength c.rest with
          | 0 => none
          | length => attributeEnd? quote bound (c.skip length)
        else if text.isEmpty then none
        else attributeEnd? quote bound (c.skip 2)
      else attributeEnd? quote bound (c.skip 1)

/-- Whether a character ends the text between tags. -/
def endsMarkupText (c : Char) : Bool :=
  c == '<' || c == '>' || c == '\x7b' || c == '\x7d' || c == '&'

/-- Whether text between tags shows anything: more than line breaks and the indentation behind
them. -/
def showsText : Bool → List Char → Bool
  | _, [] => false
  | atBreak, c :: text =>
    if c == '\n' then showsText true text
    else if atBreak && isSpacing c then showsText true text
    else true

namespace Parser

/-! ## Names and attributes -/

/-- Reads one part of a tag or attribute name; the flag tells whether it has a hyphen. -/
def tagName (kind : Kind) : Parser (Node × Bool) := do
  let c ← get
  let length := hyphenatedLength c.rest
  if length > wordLength c.rest then
    let after := c.skip length
    set after
    return ({ kind, start := c.pos, stop := after.pos }, true)
  else
    return (← name kind, false)

/-- Reads a dot and a name behind an element name. -/
def tagMember (left : Node) : Parser (Option Node) := do
  let c ← get
  let gap ← plainTrivia
  if (← get).startsWith "." then
    literal "."
    let gap' ← trivia
    let property ← name .propertyIdentifier
    return some (← node .memberExpression left.start ([left] ++ gap ++ gap' ++ [property]))
  else
    set c
    return none

/-- Reads a colon and the second part of a name whose first part is `first`; just the first part,
of the kind `single`, where no colon follows. -/
def qualifiedName (first : Node) (single : Kind) : Parser Node := do
  let c ← get
  let gap ← plainTrivia
  if (← get).startsWith ":" then
    literal ":"
    let gap' ← trivia
    let (second, _) ← tagName .identifier
    node .jsxNamespaceName first.start ([first] ++ gap ++ gap' ++ [second])
  else
    set c
    return { first with kind := single }

/-- Reads the name of an element. -/
def elementName : Parser Node := do
  let (first, hyphenated) ← tagName .identifier
  if hyphenated then
    qualifiedName first .identifier
  else
    let path ← iterate tagMember first
    if path.kind == .memberExpression then return path
    else qualifiedName first .identifier

/-- Reads an expression in braces; it may be empty. -/
def braced (sub : Parsers) : Parser Node := do
  let start ← position
  literal "\x7b"
  let gap ← trivia
  let c ← get
  let inner ← if c.startsWith "\x7d" then pure []
    else if c.startsWith "..." then (do return [← spread sub])
    else (do return [← expressions sub false])
  let gap' ← plainTrivia
  literal "\x7d"
  node .jsxExpression start (gap ++ inner ++ gap')

/-- Reads the quoted value of an attribute. -/
def quotedValue : Parser Node := do
  let c ← get
  match c.rest with
  | quote :: text =>
    require (quote == '\x22' || quote == '\x27')
    let after ← ofOption (attributeEnd? quote text (c.skip 1))
    set after
    return { kind := .string, start := c.pos, stop := after.pos }
  | [] => failure

/-- Reads the value of an attribute. -/
def attributeValue (sub : Parsers) : Parser Node := do
  let c ← get
  if c.startsWith "\x7b" then braced sub
  else if c.startsWith "<" then sub.markup
  else quotedValue

/-- Reads an attribute. -/
def tagAttribute (sub : Parsers) : Parser Node := do
  let (first, _) ← tagName .identifier
  let key ← qualifiedName first .propertyIdentifier
  let c ← get
  let gap ← plainTrivia
  if (← get).startsWith "=" then
    literal "="
    let gap' ← trivia
    let value ← attributeValue sub
    node .jsxAttribute first.start ([key] ++ gap ++ gap' ++ [value])
  else
    set c
    node .jsxAttribute first.start [key]

/-- Reads an attribute or an expression in braces, with the comments behind it; nothing at the end
of the tag. -/
def attributeStep (sub : Parsers) : Parser (Option (List Node)) := do
  let c ← get
  if c.startsWith ">" || c.startsWith "/>" then
    return none
  else if c.startsWith "\x7b" then
    let value ← braced sub
    return some (value :: (← trivia))
  else
    let value ← tagAttribute sub
    return some (value :: (← trivia))

/-! ## Elements -/

/-- Reads one child of an element; nothing at the closing tag. -/
def child (sub : Parsers) : Parser (Option (List Node)) := do
  let c ← get
  let text := c.rest.takeWhile fun ch => !endsMarkupText ch
  if showsText false text then
    set (c.skip text.length)
    return some [← node .jsxText c.pos []]
  else
    let gap ← trivia
    let c ← get
    if c.startsWith "</" then
      return if gap.isEmpty then none else some gap
    else if c.startsWith "<" then
      return some (gap ++ [← sub.markup])
    else if c.startsWith "\x7b" then
      return some (gap ++ [← braced sub])
    else
      let length := characterReferenceLength c.rest
      require (length != 0)
      set (c.skip length)
      return some (gap ++ [← node .htmlCharacterReference c.pos []])

/-- Reads a closing tag. -/
def closingTag : Parser Node := do
  let start ← position
  literal "</"
  let gap ← trivia
  let names ← if (← get).startsWith ">" then pure []
    else (do return (← elementName).as .name :: (← plainTrivia))
  literal ">"
  node .jsxClosingElement start (gap ++ names)

/-- Reads an element: self-closing, or with children between an opening and a closing tag. -/
def markup (sub : Parsers) : Parser Node := do
  let start ← position
  literal "<"
  let gap ← trivia
  let parts ← if (← get).startsWith ">" then pure none
    else (do
      let name ← elementName
      let gap' ← trivia
      let attributes ← many (attributeStep sub)
      return some ([name.as .name] ++ gap' ++ attributes.flatten))
  if parts.isSome && (← get).startsWith "/>" then
    literal "/>"
    node .jsxSelfClosingElement start (gap ++ parts.getD [])
  else
    literal ">"
    let openingTag ← node .jsxOpeningElement start (gap ++ parts.getD [])
    let children ← many (child sub)
    let closing ← closingTag
    node .jsxElement start ([openingTag] ++ children.flatten ++ [closing])

end Parser

end NotebookCell.Script

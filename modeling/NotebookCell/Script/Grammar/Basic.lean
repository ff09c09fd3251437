import NotebookCell.Script.Literal
import NotebookCell.Script.Pattern

/-!
# The shape of the grammar

The grammar is recursive: expressions hold functions, functions hold statements, statements hold
expressions. `Parsers` names the entry points through which a construct reaches the others.
Each construct is an ordinary function of the `Parsers` below it, and every use of them happens
behind at least one character already read or one step down from statement to expression, so
a bound on the nesting closes the circle.

The lists between brackets are shared: `commaList` reads elements and commas and leaves it to the
construct which holes it allows.
-/

namespace NotebookCell.Script

open NotebookCell.Tree

/-! ## Levels of binding -/

namespace Level

/-- All operators: the conditional operator binds least. -/
def lowest : Nat := 1

/-- Operators of an operand to a unary operator: none with two operands. -/
def unary : Nat := 13

/-- The operand of an increment in front: no increment behind it. -/
def update : Nat := 14

/-- A single primary expression: no member access, call or assignment. -/
def primary : Nat := 15

end Level

/-- The entry points of the grammar. `expression level asi` reads an expression whose operators
bind at least as tightly as `level`; `asi` tells whether the end of the expression may end
a statement without a semicolon. `opening` reads the first statement behind a brace that could
also open an object. -/
structure Parsers where
  expression : (level : Nat) → (asi : Bool) → Parser Node
  construct : (asi : Bool) → Parser Node
  markup : Parser Node
  statement : Parser Node
  opening : Parser Node

namespace Parsers

/-- No construct at all. -/
def none : Parsers where
  expression _ _ := failure
  construct _ := failure
  markup := failure
  statement := failure
  opening := failure

end Parsers

namespace Parser

/-- The node from `start` to the cursor. -/
def node (kind : Kind) (start : Nat) (children : List Node) : Parser Node := do
  return { kind, start, stop := ← position, children }

/-- Refuses where there is no value. -/
def ofOption : Option α → Parser α
  | some a => pure a
  | none => failure

/-! ## Lists between brackets -/

/-- One step in a list: a comma, or an element that a comma or the closing mark must follow. -/
def listStep (close : String) (element : Parser Node) :
    Parser (Option (List (Option Node))) := do
  let c ← get
  if c.startsWith close then
    return none
  else if c.startsWith "," then
    literal ","
    return some (none :: (← trivia).map some)
  else
    let node ← element
    let gap ← plainTrivia
    let c ← get
    require (c.startsWith "," || c.startsWith close)
    return some (some node :: gap.map some)

/-- Reads a bracketed list. In the result a comma is nothing; comments stand among the elements. -/
def commaList (opening close : String) (element : Parser Node) :
    Parser (List (Option Node)) := do
  literal opening
  let lead ← trivia
  let items ← many (listStep close element)
  literal close
  return lead.map some ++ items.flatten

/-- Whether every comma follows an element. -/
def withoutHoles (items : List (Option Node)) : Bool :=
  go false (items.filter fun item => !item.any Node.isRemark)
where
  go (element : Bool) : List (Option Node) → Bool
    | [] => true
    | none :: items => element && go false items
    | some _ :: items => go true items

/-! ## Expressions in a row -/

/-- Reads a spread element. -/
def spread (sub : Parsers) : Parser Node := do
  let start ← position
  literal "..."
  let gap ← trivia
  let value ← sub.expression Level.lowest false
  node .spreadElement start (gap ++ [value])

/-- Reads an expression or a spread element. -/
def element (sub : Parsers) : Parser Node := do
  if (← get).startsWith "..." then spread sub else sub.expression Level.lowest false

/-- Reads a comma and the expression behind it. -/
def sequenceStep (sub : Parsers) (asi : Bool) : Parser (Option (List Node)) := do
  match ← lookahead asi with
  | some (gap, c) =>
    if c.startsWith "," then
      set c
      literal ","
      let gap' ← trivia
      let next ← sub.expression Level.lowest asi
      return some (gap ++ gap' ++ [next])
    else
      return none
  | none => return none

/-- Reads the expressions behind commas that follow a first one. -/
def sequenceFrom (sub : Parsers) (asi : Bool) (first : Node) : Parser Node := do
  let rest ← many (sequenceStep sub asi)
  if rest.isEmpty then
    return first
  else
    node .sequenceExpression first.start (first :: rest.flatten)

/-- Reads an expression, or several with commas between them. -/
def expressions (sub : Parsers) (asi : Bool) : Parser Node := do
  sequenceFrom sub asi (← sub.expression Level.lowest asi)

/-- Reads call arguments; elements may be left out. -/
def arguments (sub : Parsers) : Parser Node := do
  let start ← position
  let items ← commaList "(" ")" (element sub)
  node .arguments start (items.filterMap id)

/-- Reads an array literal; elements may be left out. -/
def array (sub : Parsers) : Parser Node := do
  let start ← position
  let items ← commaList "[" "]" (element sub)
  node .array start (items.filterMap id)

/-- Reads an expression between parentheses where a statement keyword asks for one. -/
def parenthesized (sub : Parsers) : Parser Node := do
  let start ← position
  literal "("
  let gap ← trivia
  let inner ← expressions sub false
  let gap' ← plainTrivia
  literal ")"
  node .parenthesizedExpression start (gap ++ [inner] ++ gap')

/-- Reads a binding pattern between brackets or braces. -/
def destructuring (sub : Parsers) : Parser Node := do
  let c ← get
  require (c.startsWith "[" || c.startsWith "\x7b")
  ofOption (asPattern? (← sub.expression Level.primary false))

/-! ## Templates -/

/-- Reads one hole of a template. -/
def substitution (sub : Parsers) : Parser Node := do
  let start ← position
  literal "$\x7b"
  let gap ← trivia
  let inner ← expressions sub false
  let gap' ← plainTrivia
  literal "\x7d"
  node .templateSubstitution start (gap ++ [inner] ++ gap')

/-- Reads a run of characters, an escape or a hole. -/
def templateStep (sub : Parsers) : Parser (Option (List Node)) := do
  let c ← get
  match c.rest with
  | [] => failure
  | '\x60' :: _ => return none
  | '\\' :: _ =>
    let length := stringEscapeLength c.rest
    require (length != 0)
    set (c.skip length)
    return some []
  | '$' :: '\x7b' :: _ => return some [← substitution sub]
  | '$' :: _ =>
    set (c.skip 1)
    return some []
  | _ =>
    set (c.skipWhile fun ch => ch != '\x60' && ch != '\\' && ch != '$')
    return some []

/-- Reads a template literal. -/
def template (sub : Parsers) : Parser Node := do
  let start ← position
  literal "\x60"
  let holes ← many (templateStep sub)
  literal "\x60"
  node .templateString start holes.flatten

end Parser

end NotebookCell.Script

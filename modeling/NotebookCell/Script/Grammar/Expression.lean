import NotebookCell.Script.Grammar.Operand

/-!
# Expressions

Operators by precedence climbing. An assignment is read wherever its target is an operand, so
`a + b = c` assigns to `b`; what stands behind the `=` reaches as far to the right as it can.
-/

namespace NotebookCell.Script

open NotebookCell.Tree

/-- An operator between two operands: its spelling, its level and whether it groups to the
right. -/
structure BinaryOperator where
  spelling : String
  level : Nat
  rightward : Bool := false
deriving Repr

/-- The operators between two operands, a longer spelling before its beginnings. -/
def binaryOperators : List BinaryOperator :=
  [⟨">>>", 9, false⟩, ⟨"===", 7, false⟩, ⟨"!==", 7, false⟩, ⟨"**", 12, true⟩, ⟨">>", 9, false⟩,
    ⟨"<<", 9, false⟩, ⟨">=", 8, false⟩, ⟨"<=", 8, false⟩, ⟨"==", 7, false⟩, ⟨"!=", 7, false⟩,
    ⟨"&&", 3, false⟩, ⟨"||", 2, false⟩, ⟨"??", 1, false⟩, ⟨"*", 11, false⟩, ⟨"/", 11, false⟩,
    ⟨"%", 11, false⟩, ⟨"+", 10, false⟩, ⟨"-", 10, false⟩, ⟨">", 8, false⟩, ⟨"<", 8, false⟩,
    ⟨"&", 6, false⟩, ⟨"^", 5, false⟩, ⟨"|", 4, false⟩]

/-- The assignment operators other than `=`. -/
def compoundAssignments : List String :=
  [">>>=", "**=", "&&=", "||=", "??=", ">>=", "<<=", "+=", "-=", "*=", "/=", "%=", "^=", "&=",
    "|="]

/-- The operator at the cursor. -/
def Cursor.binaryOperator? (c : Cursor) : Option BinaryOperator :=
  if c.seesWord "in" || c.seesWord "instanceof" then some ⟨c.word, 8, false⟩
  else binaryOperators.find? fun operator => c.startsWith operator.spelling

/-- Whether the cursor is at the question mark of a conditional, not of a chain or of `??`. -/
def Cursor.seesConditional (c : Cursor) : Bool :=
  match c.rest with
  | '?' :: '?' :: _ => false
  | '?' :: '.' :: text => text.head?.any Char.isDigit
  | '?' :: _ => true
  | _ => false

namespace Parser

/-! ## Operators in front -/

/-- Reads an operator in front and its operand. -/
def unary (sub : Parsers) (spelling : String) (asi : Bool) : Parser Node := do
  let start ← position
  literal spelling
  let gap ← trivia
  let operand ← sub.expression Level.unary asi
  node .unaryExpression start (gap ++ [operand])

/-- Reads an increment in front and its operand. -/
def increment (sub : Parsers) (asi : Bool) : Parser Node := do
  let c ← get
  set (c.skip 2)
  let gap ← trivia
  let operand ← sub.expression Level.update asi
  node .updateExpression c.pos (gap ++ [operand.as .argument])

/-- Reads `yield` with or without an operand. -/
def yield (sub : Parsers) (asi : Bool) : Parser Node := do
  let start ← position
  keyword "yield"
  match ← lookahead asi with
  | none => node .yieldExpression start []
  | some (gap, c) =>
    if c.startsWith "*" && !c.startsWith "**" then
      set c
      literal "*"
      let gap' ← trivia
      let operand ← sub.expression Level.lowest asi
      node .yieldExpression start (gap ++ gap' ++ [operand])
    else if beginsOperand c.rest then
      set c
      let operand ← sub.expression Level.lowest asi
      node .yieldExpression start (gap ++ [operand])
    else
      node .yieldExpression start []

/-- Reads `await` with its operand. -/
def await (sub : Parsers) (asi : Bool) : Parser Node := do
  let start ← position
  keyword "await"
  match ← lookahead asi with
  | none => failure
  | some (gap, c) =>
    require (beginsOperand c.rest)
    set c
    let operand ← sub.expression Level.unary asi
    node .awaitExpression start (gap ++ [operand])

/-- Reads a test for a private name, such as `#x in y`. -/
def privateTest (sub : Parsers) (asi : Bool) : Parser Node := do
  let name ← privateName
  match ← lookahead asi with
  | some (gap, c) =>
    set c
    keyword "in"
    let gap' ← trivia
    let operand ← sub.expression 9 asi
    node .binaryExpression name.start ([name] ++ gap ++ gap' ++ [operand])
  | none => failure

/-- Reads an operand with the operators in front of it. -/
def fronted (sub : Parsers) (asi : Bool) : Parser Node := do
  let c ← get
  match c.rest with
  | '+' :: '+' :: _ => increment sub asi
  | '-' :: '-' :: _ => increment sub asi
  | '+' :: _ => unary sub "+" asi
  | '-' :: _ => unary sub "-" asi
  | '!' :: _ => unary sub "!" asi
  | '~' :: _ => unary sub "~" asi
  | '<' :: _ => markup sub
  | '#' :: _ => privateTest sub asi
  | _ =>
    match c.word with
    | "typeof" => unary sub "typeof" asi
    | "void" => unary sub "void" asi
    | "delete" => unary sub "delete" asi
    | "yield" => yield sub asi
    | "await" => await sub asi <|> primary sub asi false
    | "new" => construct sub asi <|> primary sub asi false
    | _ => primary sub asi false

/-! ## Assignments -/

/-- Reads an assignment to `left` where an assignment operator follows. -/
def assignment (sub : Parsers) (asi : Bool) (left : Node) : Parser Node := do
  match ← lookahead asi with
  | none => return left
  | some (gap, c) =>
    let assigns := c.startsWith "=" && !c.startsWith "==" && !c.startsWith "=>"
    let value (target : Node) (kind : Kind) (spelling : String) : Parser Node := do
      set c
      literal spelling
      let gap' ← trivia
      let right ← sub.expression Level.lowest asi
      node kind left.start ([target.as .left] ++ gap ++ gap' ++ [right])
    let compound := compoundAssignments.find? fun spelling => c.startsWith spelling
    match left.kind with
    | .identifier | .memberExpression | .subscriptExpression | .parenthesizedExpression =>
      if assigns then value left .assignmentExpression "="
      else match compound with
        | some spelling => value left .augmentedAssignmentExpression spelling
        | none => return left
    | .undefinedWord => if assigns then value left .assignmentExpression "=" else return left
    | .array | .object =>
      if assigns then value (← ofOption (asPattern? left)) .assignmentExpression "="
      else return left
    | _ => return left

/-! ## Operators between -/

/-- Reads an operator of at least `level` and its right operand behind `left`; nothing where none
follows. -/
def operation (sub : Parsers) (level : Nat) (asi : Bool) (left : Node) :
    Parser (Option Node) := do
  match ← lookahead asi with
  | none => return none
  | some (gap, c) =>
    if c.seesConditional && level ≤ Level.lowest then
      set (c.skip 1)
      let gap₁ ← trivia
      let first ← sub.expression Level.lowest false
      let gap₂ ← plainTrivia
      literal ":"
      let gap₃ ← trivia
      let second ← sub.expression Level.lowest asi
      return some (← node .ternaryExpression left.start
        ([left] ++ gap ++ gap₁ ++ [first] ++ gap₂ ++ gap₃ ++ [second]))
    match c.binaryOperator? with
    | some operator =>
      if operator.level < level then
        return none
      set c
      literal operator.spelling
      let gap' ← trivia
      let right ← sub.expression (if operator.rightward then operator.level
        else operator.level + 1) asi
      return some (← node .binaryExpression left.start ([left] ++ gap ++ gap' ++ [right]))
    | none => return none

/-- Reads an operand with its accesses and calls, but no assignment to it. -/
def chain (sub : Parsers) (asi : Bool) : Parser Node := do
  iterate (access sub asi false false) (← fronted sub asi)

/-- Reads what follows an operand that has been read: accesses, an assignment, operators. -/
def continueFrom (sub : Parsers) (level : Nat) (asi : Bool) (first : Node) : Parser Node := do
  let operand ← iterate (access sub asi false (level < Level.update)) first
  let operand ← assignment sub asi operand
  iterate (operation sub level asi) operand

/-- Reads an expression whose operators bind at least as tightly as `level`. -/
def expression (sub : Parsers) (level : Nat) (asi : Bool) : Parser Node := do
  if level ≥ Level.primary then
    primary sub asi false
  else
    continueFrom sub level asi (← fronted sub asi)

end Parser

end NotebookCell.Script

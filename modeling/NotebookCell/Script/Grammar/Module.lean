import NotebookCell.Script.Grammar.Declaration

/-!
# Imports and exports

Both keywords have other uses at the start of a statement: `import` begins calls and
`import.meta`, and `export` is a name wherever nothing that can be exported follows it.
-/

namespace NotebookCell.Script

open NotebookCell.Tree

namespace Parser

/-! ## Lists of names -/

/-- Reads a comma list of specifiers between braces; a comma may follow the last one, or stand
alone. -/
def specifiers (kind : Kind) (specifier : Parser Node) : Parser Node := do
  let start ← position
  let items ← commaList "\x7b" "\x7d" specifier
  let alone := (items.filter fun item => !item.any Node.isRemark).length == 1
  require (withoutHoles items || alone && items.any (·.isNone))
  node kind start (items.filterMap id)

/-- Reads a name as a module exports it; `default` is a mere word here. -/
def exportedName : Parser Node := do
  let c ← get
  if c.startsWith "\x22" || c.startsWith "\x27" then
    string
  else if c.seesWord "default" then
    keyword "default"
    let word ← node (.token "default") c.pos []
    return { word with named := false }
  else
    name .identifier

/-- Reads `as` and what follows it, if `as` comes next. -/
def renamed (target : Parser Node) : Parser (Option (List Node)) := do
  let c ← get
  let gap ← trivia
  if (← get).seesWord "as" then
    keyword "as"
    let gap' ← trivia
    return some (gap ++ gap' ++ [← target])
  else
    set c
    return none

/-- Reads one specifier of an export list. -/
def exportSpecifier : Parser Node := do
  let start ← position
  let exported ← exportedName
  let newName ← renamed (return (← exportedName).as .localName)
  node .exportSpecifier start (exported.as .name :: newName.getD [])

/-- Reads one specifier of an import list. -/
def importSpecifier : Parser Node := do
  let start ← position
  let imported ← exportedName
  let newName ← renamed (return (← name .identifier).as .localName)
  require (newName.isSome || imported.kind == .identifier)
  node .importSpecifier start (imported.as .name :: newName.getD [])

/-- Reads `from` and the module's name. -/
def fromClause : Parser (List Node) := do
  let gap ← trivia
  keyword "from"
  let gap' ← trivia
  let source ← string
  return gap ++ gap' ++ [source.as .source]

/-! ## Imports -/

/-- Reads `* as name`. -/
def namespaceImport : Parser Node := do
  let start ← position
  literal "*"
  let gap ← trivia
  keyword "as"
  let gap' ← trivia
  let id ← name .identifier
  node .namespaceImport start (gap ++ gap' ++ [id])

/-- Reads all names of a module, or some of them in braces. -/
def importedNames : Parser Node := do
  if (← get).startsWith "*" then namespaceImport else specifiers .namedImports importSpecifier

/-- Reads what a statement imports. -/
def importClause : Parser Node := do
  let start ← position
  if (← get).seesWord "" then
    node .importClause start [← importedNames]
  else
    let id ← name .identifier
    let c ← get
    let gap ← trivia
    if (← get).startsWith "," then
      literal ","
      let gap' ← trivia
      let names ← importedNames
      node .importClause start ([id] ++ gap ++ gap' ++ [names])
    else
      set c
      node .importClause start [id]

/-- Reads the attributes of an import, if there are any. -/
def importAttributes (sub : Parsers) : Parser (List Node) := do
  match ← lookaheadPlain with
  | some (gap, c) =>
    if c.seesWord "with" then
      set c
      keyword "with"
      let gap' ← trivia
      let value ← object sub
      let clause ← node .importAttribute c.pos (gap' ++ [value])
      return gap ++ [clause]
    else
      return []
  | none => return []

/-- Reads an import statement. -/
def importStatement (sub : Parsers) : Parser Node := do
  let start ← position
  keyword "import"
  let gap ← trivia
  let c ← get
  let what ← if c.startsWith "\x22" || c.startsWith "\x27" then
      pure [(← string).as .source]
    else do
      let clause ← importClause
      pure (clause :: (← fromClause))
  let attributes ← importAttributes sub
  let gap' ← semicolon false
  node .importStatement start (gap ++ what ++ attributes ++ gap')

/-! ## Exports -/

/-- Whether something that can be exported comes next. -/
def beginsExport (c : Cursor) : Bool :=
  (c.startsWith "*" && !c.startsWith "**" && !c.startsWith "*=") || c.startsWith "\x7b" ||
    c.startsWith "@" ||
    ["default", "function", "async", "class", "let", "const", "var", "using", "await"].contains
      c.word

/-- Reads `*` or `* as name`, and the module it comes from. -/
def exportAll : Parser (List Node) := do
  let start ← position
  literal "*"
  let c ← get
  match ← renamed exportedName with
  | some nodes =>
    let all ← node .namespaceExport start nodes
    return all :: (← fromClause)
  | none =>
    set c
    fromClause

/-- Reads a list of exported names and the module they come from, if any. -/
def exportList : Parser (List Node) := do
  let names ← specifiers .exportClause exportSpecifier
  match ← lookaheadPlain with
  | some (_, c) => if c.seesWord "from" then return names :: (← fromClause) else return [names]
  | none => return [names]

/-- Reads what follows `export default`. -/
def exportDefault (sub : Parsers) : Parser (List Node) := do
  let finish (first : Node) : Parser Node := do
    let gap ← semicolon true
    node .exportStatement first.start (first :: gap)
  let c ← get
  if ← seesDefinition then
    let value ← definitionOr sub finish
    return if value.kind == .exportStatement then value.children else [value]
  let declares ← match c.word with
    | "var" | "const" | "using" => pure true
    | "let" => letDeclares
    | "await" => awaitDeclares
    | _ => pure false
  if declares then
    return [← declaration sub]
  else
    let value ← sub.expression Level.lowest true
    return value :: (← semicolon true)

/-- Reads an export statement; `start` and `lead` are its decorators. -/
def exportStatement (sub : Parsers) (start : Nat) (lead : List Node) : Parser Node := do
  keyword "export"
  let gap ← trivia
  let c ← get
  require (lead.isEmpty || !c.startsWith "*" && !c.startsWith "\x7b")
  let what ← if c.startsWith "*" then do
      let all ← exportAll
      pure (all ++ (← semicolon false))
    else if c.startsWith "\x7b" then do
      let list ← exportList
      pure (list ++ (← semicolon false))
    else if c.seesWord "default" then do
      keyword "default"
      let gap' ← trivia
      pure (gap' ++ (← exportDefault sub))
    else
      pure [← declaration sub]
  node .exportStatement start (lead ++ gap ++ what)

end Parser

end NotebookCell.Script

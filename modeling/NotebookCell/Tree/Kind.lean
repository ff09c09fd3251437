/-!
# Kinds of syntax nodes

Every node of a script's syntax tree has a kind. The kinds the grammar gives to its constructs are
constructors here; everything else a tree can hold (punctuation, keywords, string parts) is a
`token` that carries its own spelling. `Kind.name` and `Kind.ofName` are the spellings used
wherever trees are written out.
-/

namespace NotebookCell.Tree

/-- The kind of a syntax node. -/
inductive Kind where
  | program | hashBangLine | exportStatement | namespaceExport | exportClause | exportSpecifier
  | importWord | importStatement | importClause | namespaceImport | namedImports
  | importSpecifier | importAttribute | expressionStatement | variableDeclaration
  | lexicalDeclaration | usingDeclaration | variableDeclarator | statementBlock | elseClause
  | ifStatement | switchStatement | forStatement | forInStatement | whileStatement
  | doStatement | tryStatement | withStatement | breakStatement | continueStatement
  | debuggerStatement | returnStatement | throwStatement | emptyStatement | labeledStatement
  | switchBody | switchCase | switchDefault | catchClause | finallyClause
  | parenthesizedExpression | yieldExpression | object | objectPattern | assignmentPattern
  | objectAssignmentPattern | array | arrayPattern | restPattern | spreadElement | pair
  | pairPattern | computedPropertyName | jsxElement | jsxOpeningElement | jsxClosingElement
  | jsxSelfClosingElement | jsxExpression | jsxText | jsxNamespaceName | jsxAttribute
  | htmlCharacterReference | classExpression | classDeclaration | classHeritage | classBody
  | classStaticBlock | fieldDefinition | methodDefinition | decorator | functionWord
  | functionExpression | functionDeclaration | generatorFunction | generatorFunctionDeclaration
  | arrowFunction | formalParameters | callExpression | newExpression | arguments
  | awaitExpression | memberExpression | subscriptExpression | assignmentExpression
  | augmentedAssignmentExpression | ternaryExpression | binaryExpression | unaryExpression
  | updateExpression | sequenceExpression | string | templateString | templateSubstitution
  | regex | number | identifier | privatePropertyIdentifier | propertyIdentifier
  | shorthandPropertyIdentifier | shorthandPropertyIdentifierPattern | statementIdentifier
  | metaProperty | thisWord | superWord | trueWord | falseWord | nullWord | undefinedWord
  | awaitWord | comment | htmlComment | error
  | token (spelling : String)
deriving DecidableEq, Repr, Inhabited

namespace Kind

/-- The written name of a kind. -/
def name : Kind → String
  | program => "program"
  | hashBangLine => "hash_bang_line"
  | exportStatement => "export_statement"
  | namespaceExport => "namespace_export"
  | exportClause => "export_clause"
  | exportSpecifier => "export_specifier"
  | importWord => "import"
  | importStatement => "import_statement"
  | importClause => "import_clause"
  | namespaceImport => "namespace_import"
  | namedImports => "named_imports"
  | importSpecifier => "import_specifier"
  | importAttribute => "import_attribute"
  | expressionStatement => "expression_statement"
  | variableDeclaration => "variable_declaration"
  | lexicalDeclaration => "lexical_declaration"
  | usingDeclaration => "using_declaration"
  | variableDeclarator => "variable_declarator"
  | statementBlock => "statement_block"
  | elseClause => "else_clause"
  | ifStatement => "if_statement"
  | switchStatement => "switch_statement"
  | forStatement => "for_statement"
  | forInStatement => "for_in_statement"
  | whileStatement => "while_statement"
  | doStatement => "do_statement"
  | tryStatement => "try_statement"
  | withStatement => "with_statement"
  | breakStatement => "break_statement"
  | continueStatement => "continue_statement"
  | debuggerStatement => "debugger_statement"
  | returnStatement => "return_statement"
  | throwStatement => "throw_statement"
  | emptyStatement => "empty_statement"
  | labeledStatement => "labeled_statement"
  | switchBody => "switch_body"
  | switchCase => "switch_case"
  | switchDefault => "switch_default"
  | catchClause => "catch_clause"
  | finallyClause => "finally_clause"
  | parenthesizedExpression => "parenthesized_expression"
  | yieldExpression => "yield_expression"
  | object => "object"
  | objectPattern => "object_pattern"
  | assignmentPattern => "assignment_pattern"
  | objectAssignmentPattern => "object_assignment_pattern"
  | array => "array"
  | arrayPattern => "array_pattern"
  | restPattern => "rest_pattern"
  | spreadElement => "spread_element"
  | pair => "pair"
  | pairPattern => "pair_pattern"
  | computedPropertyName => "computed_property_name"
  | jsxElement => "jsx_element"
  | jsxOpeningElement => "jsx_opening_element"
  | jsxClosingElement => "jsx_closing_element"
  | jsxSelfClosingElement => "jsx_self_closing_element"
  | jsxExpression => "jsx_expression"
  | jsxText => "jsx_text"
  | jsxNamespaceName => "jsx_namespace_name"
  | jsxAttribute => "jsx_attribute"
  | htmlCharacterReference => "html_character_reference"
  | classExpression => "class"
  | classDeclaration => "class_declaration"
  | classHeritage => "class_heritage"
  | classBody => "class_body"
  | classStaticBlock => "class_static_block"
  | fieldDefinition => "field_definition"
  | methodDefinition => "method_definition"
  | decorator => "decorator"
  | functionWord => "function"
  | functionExpression => "function_expression"
  | functionDeclaration => "function_declaration"
  | generatorFunction => "generator_function"
  | generatorFunctionDeclaration => "generator_function_declaration"
  | arrowFunction => "arrow_function"
  | formalParameters => "formal_parameters"
  | callExpression => "call_expression"
  | newExpression => "new_expression"
  | arguments => "arguments"
  | awaitExpression => "await_expression"
  | memberExpression => "member_expression"
  | subscriptExpression => "subscript_expression"
  | assignmentExpression => "assignment_expression"
  | augmentedAssignmentExpression => "augmented_assignment_expression"
  | ternaryExpression => "ternary_expression"
  | binaryExpression => "binary_expression"
  | unaryExpression => "unary_expression"
  | updateExpression => "update_expression"
  | sequenceExpression => "sequence_expression"
  | string => "string"
  | templateString => "template_string"
  | templateSubstitution => "template_substitution"
  | regex => "regex"
  | number => "number"
  | identifier => "identifier"
  | privatePropertyIdentifier => "private_property_identifier"
  | propertyIdentifier => "property_identifier"
  | shorthandPropertyIdentifier => "shorthand_property_identifier"
  | shorthandPropertyIdentifierPattern => "shorthand_property_identifier_pattern"
  | statementIdentifier => "statement_identifier"
  | metaProperty => "meta_property"
  | thisWord => "this"
  | superWord => "super"
  | trueWord => "true"
  | falseWord => "false"
  | nullWord => "null"
  | undefinedWord => "undefined"
  | awaitWord => "await"
  | comment => "comment"
  | htmlComment => "html_comment"
  | error => "ERROR"
  | token spelling => spelling

/-- The kinds that have a constructor of their own. -/
def constructs : List Kind := [
  .program, .hashBangLine, .exportStatement, .namespaceExport, .exportClause, .exportSpecifier,
  .importWord, .importStatement, .importClause, .namespaceImport, .namedImports,
  .importSpecifier, .importAttribute, .expressionStatement, .variableDeclaration,
  .lexicalDeclaration, .usingDeclaration, .variableDeclarator, .statementBlock, .elseClause,
  .ifStatement, .switchStatement, .forStatement, .forInStatement, .whileStatement,
  .doStatement, .tryStatement, .withStatement, .breakStatement, .continueStatement,
  .debuggerStatement, .returnStatement, .throwStatement, .emptyStatement, .labeledStatement,
  .switchBody, .switchCase, .switchDefault, .catchClause, .finallyClause,
  .parenthesizedExpression, .yieldExpression, .object, .objectPattern, .assignmentPattern,
  .objectAssignmentPattern, .array, .arrayPattern, .restPattern, .spreadElement, .pair,
  .pairPattern, .computedPropertyName, .jsxElement, .jsxOpeningElement, .jsxClosingElement,
  .jsxSelfClosingElement, .jsxExpression, .jsxText, .jsxNamespaceName, .jsxAttribute,
  .htmlCharacterReference, .classExpression, .classDeclaration, .classHeritage, .classBody,
  .classStaticBlock, .fieldDefinition, .methodDefinition, .decorator, .functionWord,
  .functionExpression, .functionDeclaration, .generatorFunction, .generatorFunctionDeclaration,
  .arrowFunction, .formalParameters, .callExpression, .newExpression, .arguments,
  .awaitExpression, .memberExpression, .subscriptExpression, .assignmentExpression,
  .augmentedAssignmentExpression, .ternaryExpression, .binaryExpression, .unaryExpression,
  .updateExpression, .sequenceExpression, .string, .templateString, .templateSubstitution,
  .regex, .number, .identifier, .privatePropertyIdentifier, .propertyIdentifier,
  .shorthandPropertyIdentifier, .shorthandPropertyIdentifierPattern, .statementIdentifier,
  .metaProperty, .thisWord, .superWord, .trueWord, .falseWord, .nullWord, .undefinedWord,
  .awaitWord, .comment, .htmlComment, .error]

/-- The kind with a given written name; a name of no construct is a token. -/
def ofName (spelling : String) : Kind :=
  (constructs.find? fun kind => kind.name == spelling).getD (.token spelling)

end Kind

end NotebookCell.Tree

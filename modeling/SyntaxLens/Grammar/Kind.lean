/-! # Node kinds

The kinds of node that have a place in the grammar and a rule for their display. Every kind has a
tag, by which documents name it, and a category, by which outlines group it.

* `Kind.ofTag?` finds the kind of a tag; `ofTag?_tag` says that it undoes `Kind.tag`, so no two
  kinds share a tag. -/

namespace SyntaxLens

/-- Broad grouping of kinds. -/
inductive Category where
  | root | literal | statement | declaration | expression | pattern | classMember | moduleClause
deriving DecidableEq, Repr

/-- The name of a category. -/
def Category.name : Category → String
  | .root => "Root"
  | .literal => "Literal"
  | .statement => "Statement"
  | .declaration => "Declaration"
  | .expression => "Expression"
  | .pattern => "Pattern"
  | .classMember => "Class"
  | .moduleClause => "Module"

/-- A kind of node. -/
inductive Kind where
  | file | program | identifier | regExpLiteral | nullLiteral | stringLiteral | booleanLiteral
  | numericLiteral | directive | directiveLiteral | expressionStatement | blockStatement
  | emptyStatement | debuggerStatement | withStatement | returnStatement | labeledStatement
  | breakStatement | continueStatement | ifStatement | switchStatement | switchCase
  | throwStatement | tryStatement | catchClause | whileStatement | doWhileStatement
  | forStatement | forInStatement | forOfStatement | functionDeclaration | variableDeclaration
  | variableDeclarator | classDeclaration | decorator | superReference | importCallee
  | thisExpression | arrowFunctionExpression | yieldExpression | awaitExpression
  | arrayExpression | objectExpression | objectProperty | objectMethod | functionExpression
  | unaryExpression | updateExpression | binaryExpression | assignmentExpression
  | logicalExpression | spreadElement | spreadProperty | memberExpression | bindExpression
  | conditionalExpression | callExpression | newExpression | sequenceExpression | doExpression
  | classExpression | objectPattern | arrayPattern | restElement | restProperty
  | assignmentPattern | classBody | classMethod | classProperty | importDeclaration
  | importSpecifier | importDefaultSpecifier | importNamespaceSpecifier | exportNamedDeclaration
  | exportSpecifier | exportDefaultDeclaration | exportAllDeclaration
deriving DecidableEq, Repr

namespace Kind

/-- All kinds, in grammar order. -/
def all : List Kind := [
  .file, .program, .identifier, .regExpLiteral, .nullLiteral, .stringLiteral, .booleanLiteral,
  .numericLiteral, .directive, .directiveLiteral, .expressionStatement, .blockStatement,
  .emptyStatement, .debuggerStatement, .withStatement, .returnStatement, .labeledStatement,
  .breakStatement, .continueStatement, .ifStatement, .switchStatement, .switchCase,
  .throwStatement, .tryStatement, .catchClause, .whileStatement, .doWhileStatement,
  .forStatement, .forInStatement, .forOfStatement, .functionDeclaration, .variableDeclaration,
  .variableDeclarator, .classDeclaration, .decorator, .superReference, .importCallee,
  .thisExpression, .arrowFunctionExpression, .yieldExpression, .awaitExpression,
  .arrayExpression, .objectExpression, .objectProperty, .objectMethod, .functionExpression,
  .unaryExpression, .updateExpression, .binaryExpression, .assignmentExpression,
  .logicalExpression, .spreadElement, .spreadProperty, .memberExpression, .bindExpression,
  .conditionalExpression, .callExpression, .newExpression, .sequenceExpression, .doExpression,
  .classExpression, .objectPattern, .arrayPattern, .restElement, .restProperty,
  .assignmentPattern, .classBody, .classMethod, .classProperty, .importDeclaration,
  .importSpecifier, .importDefaultSpecifier, .importNamespaceSpecifier, .exportNamedDeclaration,
  .exportSpecifier, .exportDefaultDeclaration, .exportAllDeclaration]

/-- The name that documents use for the kind. -/
def tag : Kind → String
  | .file => "File"
  | .program => "Program"
  | .identifier => "Identifier"
  | .regExpLiteral => "RegExpLiteral"
  | .nullLiteral => "NullLiteral"
  | .stringLiteral => "StringLiteral"
  | .booleanLiteral => "BooleanLiteral"
  | .numericLiteral => "NumericLiteral"
  | .directive => "Directive"
  | .directiveLiteral => "DirectiveLiteral"
  | .expressionStatement => "ExpressionStatement"
  | .blockStatement => "BlockStatement"
  | .emptyStatement => "EmptyStatement"
  | .debuggerStatement => "DebuggerStatement"
  | .withStatement => "WithStatement"
  | .returnStatement => "ReturnStatement"
  | .labeledStatement => "LabeledStatement"
  | .breakStatement => "BreakStatement"
  | .continueStatement => "ContinueStatement"
  | .ifStatement => "IfStatement"
  | .switchStatement => "SwitchStatement"
  | .switchCase => "SwitchCase"
  | .throwStatement => "ThrowStatement"
  | .tryStatement => "TryStatement"
  | .catchClause => "CatchClause"
  | .whileStatement => "WhileStatement"
  | .doWhileStatement => "DoWhileStatement"
  | .forStatement => "ForStatement"
  | .forInStatement => "ForInStatement"
  | .forOfStatement => "ForOfStatement"
  | .functionDeclaration => "FunctionDeclaration"
  | .variableDeclaration => "VariableDeclaration"
  | .variableDeclarator => "VariableDeclarator"
  | .classDeclaration => "ClassDeclaration"
  | .decorator => "Decorator"
  | .superReference => "Super"
  | .importCallee => "Import"
  | .thisExpression => "ThisExpression"
  | .arrowFunctionExpression => "ArrowFunctionExpression"
  | .yieldExpression => "YieldExpression"
  | .awaitExpression => "AwaitExpression"
  | .arrayExpression => "ArrayExpression"
  | .objectExpression => "ObjectExpression"
  | .objectProperty => "ObjectProperty"
  | .objectMethod => "ObjectMethod"
  | .functionExpression => "FunctionExpression"
  | .unaryExpression => "UnaryExpression"
  | .updateExpression => "UpdateExpression"
  | .binaryExpression => "BinaryExpression"
  | .assignmentExpression => "AssignmentExpression"
  | .logicalExpression => "LogicalExpression"
  | .spreadElement => "SpreadElement"
  | .spreadProperty => "SpreadProperty"
  | .memberExpression => "MemberExpression"
  | .bindExpression => "BindExpression"
  | .conditionalExpression => "ConditionalExpression"
  | .callExpression => "CallExpression"
  | .newExpression => "NewExpression"
  | .sequenceExpression => "SequenceExpression"
  | .doExpression => "DoExpression"
  | .classExpression => "ClassExpression"
  | .objectPattern => "ObjectPattern"
  | .arrayPattern => "ArrayPattern"
  | .restElement => "RestElement"
  | .restProperty => "RestProperty"
  | .assignmentPattern => "AssignmentPattern"
  | .classBody => "ClassBody"
  | .classMethod => "ClassMethod"
  | .classProperty => "ClassProperty"
  | .importDeclaration => "ImportDeclaration"
  | .importSpecifier => "ImportSpecifier"
  | .importDefaultSpecifier => "ImportDefaultSpecifier"
  | .importNamespaceSpecifier => "ImportNamespaceSpecifier"
  | .exportNamedDeclaration => "ExportNamedDeclaration"
  | .exportSpecifier => "ExportSpecifier"
  | .exportDefaultDeclaration => "ExportDefaultDeclaration"
  | .exportAllDeclaration => "ExportAllDeclaration"

def category : Kind → Category
  | .file | .program => .root
  | .identifier | .superReference | .importCallee | .thisExpression
  | .arrowFunctionExpression | .yieldExpression | .awaitExpression | .arrayExpression
  | .objectExpression | .objectProperty | .objectMethod | .functionExpression
  | .unaryExpression | .updateExpression | .binaryExpression | .assignmentExpression
  | .logicalExpression | .spreadElement | .spreadProperty | .memberExpression
  | .bindExpression | .conditionalExpression | .callExpression | .newExpression
  | .sequenceExpression | .doExpression | .classExpression => .expression
  | .regExpLiteral | .nullLiteral | .stringLiteral | .booleanLiteral | .numericLiteral
  | .directiveLiteral => .literal
  | .directive | .expressionStatement | .blockStatement | .emptyStatement
  | .debuggerStatement | .withStatement | .returnStatement | .labeledStatement
  | .breakStatement | .continueStatement | .ifStatement | .switchStatement | .switchCase
  | .throwStatement | .tryStatement | .catchClause | .whileStatement | .doWhileStatement
  | .forStatement | .forInStatement | .forOfStatement => .statement
  | .functionDeclaration | .variableDeclaration | .variableDeclarator | .classDeclaration
  | .decorator => .declaration
  | .objectPattern | .arrayPattern | .restElement | .restProperty | .assignmentPattern => .pattern
  | .classBody | .classMethod | .classProperty => .classMember
  | .importDeclaration | .importSpecifier | .importDefaultSpecifier
  | .importNamespaceSpecifier | .exportNamedDeclaration | .exportSpecifier
  | .exportDefaultDeclaration | .exportAllDeclaration => .moduleClause

/-- The kind of a tag. -/
def ofTag? (tag : String) : Option Kind := all.find? fun k => k.tag == tag

theorem mem_all (k : Kind) : k ∈ all := by cases k <;> decide

theorem ofTag?_tag (k : Kind) : ofTag? k.tag = some k := by cases k <;> decide

end Kind

end SyntaxLens

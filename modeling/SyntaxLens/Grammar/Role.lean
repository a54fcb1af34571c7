import SyntaxLens.Grammar.Kind

/-! # Roles of children

A child of a node has a role, such as the test of a conditional. The grammar says for every kind
which roles its children have, in which order, and which of them hold a list.

* `Kind.roles` is that table. No kind lists a role twice (`roles_nodup`).
* `Kind.reading` is the table by which the children are read from a document. It lists the same
  places (`reading_perm`), for one kind only in another order (`reading_eq_roles`).
* `Kind.primary` is the role that a step down goes to; it is a role of the kind
  (`primary_mem_roles`), and exactly the kinds without children have none (`primary_eq_none_iff`).
  -/

namespace SyntaxLens

/-- What a child is to its parent. -/
inductive Role where
  | alternate | argument | arguments | block | body | callee | cases | consequent | declaration
  | declarations | decorators | directives | discriminant | elements | exported | expression
  | expressions | finalizer | handler | identity | imported | init | key | label | left | localName
  | object | param | params | program | properties | property | right | source | specifiers
  | superClass | test | update | value
deriving DecidableEq, Repr

namespace Role

def all : List Role := [
  .alternate, .argument, .arguments, .block, .body, .callee, .cases, .consequent, .declaration,
  .declarations, .decorators, .directives, .discriminant, .elements, .exported, .expression,
  .expressions, .finalizer, .handler, .identity, .imported, .init, .key, .label, .left, .localName,
  .object, .param, .params, .program, .properties, .property, .right, .source, .specifiers,
  .superClass, .test, .update, .value]

/-- The name of a role in documents and paths. -/
def name : Role → String
  | .alternate => "alternate"
  | .argument => "argument"
  | .arguments => "arguments"
  | .block => "block"
  | .body => "body"
  | .callee => "callee"
  | .cases => "cases"
  | .consequent => "consequent"
  | .declaration => "declaration"
  | .declarations => "declarations"
  | .decorators => "decorators"
  | .directives => "directives"
  | .discriminant => "discriminant"
  | .elements => "elements"
  | .exported => "exported"
  | .expression => "expression"
  | .expressions => "expressions"
  | .finalizer => "finalizer"
  | .handler => "handler"
  | .identity => "id"
  | .imported => "imported"
  | .init => "init"
  | .key => "key"
  | .label => "label"
  | .left => "left"
  | .localName => "local"
  | .object => "object"
  | .param => "param"
  | .params => "params"
  | .program => "program"
  | .properties => "properties"
  | .property => "property"
  | .right => "right"
  | .source => "source"
  | .specifiers => "specifiers"
  | .superClass => "superClass"
  | .test => "test"
  | .update => "update"
  | .value => "value"

theorem mem_all (r : Role) : r ∈ all := by cases r <;> decide

/-- Different roles have different names. -/
theorem name_injective {r s : Role} (h : r.name = s.name) : r = s := by
  have table : ∀ r ∈ all, ∀ s ∈ all, r.name = s.name → r = s := by decide
  exact table r r.mem_all s s.mem_all h

end Role

/-- Whether a role holds one optional child or a list of them. -/
inductive Arity where
  | one | many
deriving DecidableEq, Repr

/-- A role together with what it holds. -/
structure Place where
  role : Role
  arity : Arity
deriving DecidableEq, Repr

/-- A role with one optional child. -/
def Role.one (r : Role) : Place := ⟨r, .one⟩

/-- A role with a list of children. -/
def Role.many (r : Role) : Place := ⟨r, .many⟩

namespace Kind

/-- The places for children of a node of the kind, in grammar order. -/
def roles : Kind → List Place
  | .file => [Role.one .program]
  | .program | .blockStatement => [Role.many .directives, Role.many .body]
  | .directive => [Role.one .value]
  | .expressionStatement | .decorator => [Role.one .expression]
  | .withStatement => [Role.one .object, Role.one .body]
  | .returnStatement | .throwStatement | .yieldExpression | .awaitExpression | .unaryExpression
  | .updateExpression | .spreadElement | .spreadProperty | .restElement | .restProperty =>
    [Role.one .argument]
  | .labeledStatement => [Role.one .label, Role.one .body]
  | .breakStatement | .continueStatement => [Role.one .label]
  | .ifStatement | .conditionalExpression =>
    [Role.one .test, Role.one .consequent, Role.one .alternate]
  | .switchStatement => [Role.one .discriminant, Role.many .cases]
  | .switchCase => [Role.one .test, Role.many .consequent]
  | .tryStatement => [Role.one .block, Role.one .handler, Role.one .finalizer]
  | .catchClause => [Role.one .param, Role.one .body]
  | .whileStatement => [Role.one .test, Role.one .body]
  | .doWhileStatement => [Role.one .body, Role.one .test]
  | .forStatement => [Role.one .init, Role.one .test, Role.one .update, Role.one .body]
  | .forInStatement | .forOfStatement => [Role.one .left, Role.one .right, Role.one .body]
  | .functionDeclaration | .functionExpression =>
    [Role.one .identity, Role.many .params, Role.one .body]
  | .variableDeclaration => [Role.many .declarations]
  | .variableDeclarator => [Role.one .identity, Role.one .init]
  | .classDeclaration | .classExpression =>
    [Role.many .decorators, Role.one .identity, Role.one .superClass, Role.one .body]
  | .arrowFunctionExpression => [Role.many .params, Role.one .body]
  | .arrayExpression | .arrayPattern => [Role.many .elements]
  | .objectExpression | .objectPattern => [Role.many .properties]
  | .objectProperty | .classProperty => [Role.many .decorators, Role.one .key, Role.one .value]
  | .objectMethod | .classMethod =>
    [Role.many .decorators, Role.one .key, Role.many .params, Role.one .body]
  | .binaryExpression | .assignmentExpression | .logicalExpression | .assignmentPattern =>
    [Role.one .left, Role.one .right]
  | .memberExpression => [Role.one .object, Role.one .property]
  | .bindExpression => [Role.one .object, Role.one .callee]
  | .callExpression | .newExpression => [Role.one .callee, Role.many .arguments]
  | .sequenceExpression => [Role.many .expressions]
  | .doExpression => [Role.one .body]
  | .classBody => [Role.many .body]
  | .importDeclaration => [Role.many .specifiers, Role.one .source]
  | .importSpecifier => [Role.one .imported, Role.one .localName]
  | .importDefaultSpecifier | .importNamespaceSpecifier => [Role.one .localName]
  | .exportNamedDeclaration => [Role.one .declaration, Role.many .specifiers, Role.one .source]
  | .exportSpecifier => [Role.one .localName, Role.one .exported]
  | .exportDefaultDeclaration => [Role.one .declaration]
  | .exportAllDeclaration => [Role.one .source]
  | .identifier | .regExpLiteral | .nullLiteral | .stringLiteral | .booleanLiteral
  | .numericLiteral | .directiveLiteral | .emptyStatement | .debuggerStatement | .superReference
  | .importCallee | .thisExpression => []

/-- The places for children of a node of the kind, in the order in which they are read from a
document. The loops share one order: a loop that tests at its end is read like one that tests
first. -/
def reading : Kind → List Place
  | .file => [Role.one .program]
  | .program | .blockStatement => [Role.many .directives, Role.many .body]
  | .directive => [Role.one .value]
  | .expressionStatement | .decorator => [Role.one .expression]
  | .withStatement => [Role.one .object, Role.one .body]
  | .returnStatement | .throwStatement => [Role.one .argument]
  | .labeledStatement => [Role.one .label, Role.one .body]
  | .breakStatement | .continueStatement => [Role.one .label]
  | .ifStatement => [Role.one .test, Role.one .consequent, Role.one .alternate]
  | .switchStatement => [Role.one .discriminant, Role.many .cases]
  | .switchCase => [Role.one .test, Role.many .consequent]
  | .tryStatement => [Role.one .block, Role.one .handler, Role.one .finalizer]
  | .catchClause => [Role.one .param, Role.one .body]
  | .whileStatement | .doWhileStatement => [Role.one .test, Role.one .body]
  | .forStatement => [Role.one .init, Role.one .test, Role.one .update, Role.one .body]
  | .forInStatement | .forOfStatement => [Role.one .left, Role.one .right, Role.one .body]
  | .functionDeclaration | .functionExpression =>
    [Role.one .identity, Role.many .params, Role.one .body]
  | .variableDeclaration => [Role.many .declarations]
  | .variableDeclarator => [Role.one .identity, Role.one .init]
  | .classDeclaration | .classExpression =>
    [Role.many .decorators, Role.one .identity, Role.one .superClass, Role.one .body]
  | .arrowFunctionExpression => [Role.many .params, Role.one .body]
  | .yieldExpression | .awaitExpression => [Role.one .argument]
  | .arrayExpression | .arrayPattern => [Role.many .elements]
  | .objectExpression | .objectPattern => [Role.many .properties]
  | .objectProperty => [Role.many .decorators, Role.one .key, Role.one .value]
  | .objectMethod => [Role.many .decorators, Role.one .key, Role.many .params, Role.one .body]
  | .unaryExpression | .updateExpression => [Role.one .argument]
  | .binaryExpression | .assignmentExpression | .logicalExpression =>
    [Role.one .left, Role.one .right]
  | .spreadElement | .spreadProperty | .restElement | .restProperty => [Role.one .argument]
  | .memberExpression => [Role.one .object, Role.one .property]
  | .bindExpression => [Role.one .object, Role.one .callee]
  | .conditionalExpression => [Role.one .test, Role.one .consequent, Role.one .alternate]
  | .callExpression | .newExpression => [Role.one .callee, Role.many .arguments]
  | .sequenceExpression => [Role.many .expressions]
  | .doExpression => [Role.one .body]
  | .assignmentPattern => [Role.one .left, Role.one .right]
  | .classBody => [Role.many .body]
  | .classMethod => [Role.many .decorators, Role.one .key, Role.many .params, Role.one .body]
  | .classProperty => [Role.many .decorators, Role.one .key, Role.one .value]
  | .importDeclaration => [Role.many .specifiers, Role.one .source]
  | .importSpecifier => [Role.one .imported, Role.one .localName]
  | .importDefaultSpecifier | .importNamespaceSpecifier => [Role.one .localName]
  | .exportNamedDeclaration => [Role.one .declaration, Role.many .specifiers, Role.one .source]
  | .exportSpecifier => [Role.one .localName, Role.one .exported]
  | .exportDefaultDeclaration => [Role.one .declaration]
  | .exportAllDeclaration => [Role.one .source]
  | .identifier | .regExpLiteral | .nullLiteral | .stringLiteral | .booleanLiteral
  | .numericLiteral | .directiveLiteral | .emptyStatement | .debuggerStatement | .superReference
  | .importCallee | .thisExpression => []

/-- The role that a step down goes to. Loops and conditionals that test first lead to the test,
switches to their cases, functions and classes to their name. -/
def primary : Kind → Option Role
  | .file => some .program
  | .program | .blockStatement | .classBody | .doWhileStatement | .doExpression
  | .arrowFunctionExpression => some .body
  | .directive => some .value
  | .expressionStatement | .decorator => some .expression
  | .withStatement | .memberExpression | .bindExpression => some .object
  | .returnStatement | .throwStatement | .yieldExpression | .awaitExpression | .spreadElement
  | .spreadProperty | .restElement | .restProperty | .unaryExpression | .updateExpression =>
    some .argument
  | .labeledStatement | .breakStatement | .continueStatement => some .label
  | .ifStatement | .whileStatement | .conditionalExpression => some .test
  | .switchStatement => some .cases
  | .switchCase => some .consequent
  | .tryStatement => some .block
  | .catchClause => some .param
  | .forStatement => some .init
  | .forInStatement | .forOfStatement | .binaryExpression | .assignmentExpression
  | .logicalExpression | .assignmentPattern => some .left
  | .functionDeclaration | .functionExpression | .classDeclaration | .classExpression
  | .variableDeclarator => some .identity
  | .variableDeclaration => some .declarations
  | .arrayExpression | .arrayPattern => some .elements
  | .objectExpression | .objectPattern => some .properties
  | .objectProperty | .objectMethod | .classMethod | .classProperty => some .key
  | .callExpression | .newExpression => some .callee
  | .sequenceExpression => some .expressions
  | .importDeclaration => some .specifiers
  | .importSpecifier => some .imported
  | .importDefaultSpecifier | .importNamespaceSpecifier | .exportSpecifier => some .localName
  | .exportNamedDeclaration | .exportDefaultDeclaration => some .declaration
  | .exportAllDeclaration => some .source
  | .identifier | .regExpLiteral | .nullLiteral | .stringLiteral | .booleanLiteral
  | .numericLiteral | .directiveLiteral | .emptyStatement | .debuggerStatement | .superReference
  | .importCallee | .thisExpression => none

theorem roles_nodup (k : Kind) : (k.roles.map Place.role).Nodup := by cases k <;> decide

theorem reading_perm (k : Kind) : k.reading.Perm k.roles := by
  cases k <;> decide

theorem reading_eq_roles {k : Kind} (h : k ≠ .doWhileStatement) : k.reading = k.roles := by
  cases k with
  | doWhileStatement => exact absurd rfl h
  | _ => rfl

theorem primary_mem_roles {k : Kind} {r : Role} (h : k.primary = some r) :
    r ∈ k.roles.map Place.role := by
  cases k <;> cases h <;> decide

theorem primary_eq_none_iff (k : Kind) : k.primary = none ↔ k.roles = [] := by
  cases k <;> decide

end Kind

end SyntaxLens

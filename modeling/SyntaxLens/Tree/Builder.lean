import SyntaxLens.Tree.Basic

/-! # Building arenas

Arenas are built from the bottom up: a step puts one node, or a small group of nodes, at the end of
an arena. Children are given by their places and are not checked. -/

namespace SyntaxLens

/-- One step of building an arena. -/
inductive BuildStep where
  | file (program : NodeId)
  | program (body : List NodeId)
  | identifier (name : String)
  | number (value : Double)
  | string (value : String)
  | boolean (value : Bool)
  | expressionStatement (expression : NodeId)
  | block (body : List NodeId)
  | returnStatement (argument : Option NodeId)
  | ifStatement (test consequent : NodeId) (alternate : Option NodeId)
  | binary (operator : String) (left right : NodeId)
  | logical (operator : String) (left right : NodeId)
  | assignment (operator : String) (left right : NodeId)
  | unary (operator : String) (argument : NodeId)
  | member (object property : NodeId) (computed : Bool)
  | call (callee : NodeId) (arguments : List NodeId)
  | array (elements : List (Option NodeId))
  | object (properties : List NodeId)
  | property (key value : NodeId)
  | variable (word : Declarator) (name : NodeId) (value : Option NodeId)
  | function (name : Option String) (params body : List NodeId)
  | unknown (tag : String)
  | node (n : Node)

namespace BuildStep

/-- A label for every child of a list. -/
def all (r : Role) (ids : List NodeId) : List (Role × Option NodeId) :=
  ids.map fun id => (r, some id)

/-- A node of a kind that has no traits. -/
def plain (kind : Kind) (traits : kind.Traits) (entries : List (Role × Option NodeId)) : Node :=
  .ofEntries (.known kind traits) entries

/-- An operation with two operands. -/
def operation (kind : Kind) (traits : kind.Traits) (left right : NodeId) : Node :=
  plain kind traits [(.left, some left), (.right, some right)]

def blockOf (body : List NodeId) : Node := plain .blockStatement () (all .body body)

/-- The nodes that a step adds to an arena of the given size. The declaration of a variable comes
with its declarator, a function with its name and its block. -/
def nodes (size : Nat) : BuildStep → List Node
  | .file id => [plain .file () [(.program, some id)]]
  | .program body => [plain .program "script" (all .body body)]
  | .identifier name => [plain .identifier name []]
  | .number value => [plain .numericLiteral (NumberTraits.mk value none) []]
  | .string value => [plain .stringLiteral value []]
  | .boolean value => [plain .booleanLiteral value []]
  | .expressionStatement id => [plain .expressionStatement () [(.expression, some id)]]
  | .block body => [blockOf body]
  | .returnStatement argument => [plain .returnStatement () [(.argument, argument)]]
  | .ifStatement test consequent alternate =>
    [plain .ifStatement ()
      [(.test, some test), (.consequent, some consequent), (.alternate, alternate)]]
  | .binary operator left right => [operation .binaryExpression operator left right]
  | .logical operator left right => [operation .logicalExpression operator left right]
  | .assignment operator left right => [operation .assignmentExpression operator left right]
  | .unary operator argument =>
    [plain .unaryExpression (UnaryTraits.mk operator true) [(.argument, some argument)]]
  | .member owner name computed =>
    [plain .memberExpression computed [(.object, some owner), (.property, some name)]]
  | .call callee arguments =>
    [plain .callExpression () ((.callee, some callee) :: all .arguments arguments)]
  | .array elements => [plain .arrayExpression () (elements.map (Role.elements, ·))]
  | .object properties => [plain .objectExpression () (all .properties properties)]
  | .property key value =>
    [plain .objectProperty (PropertyTraits.mk false false) [(.key, some key), (.value, some value)]]
  | .variable word name value =>
    [plain .variableDeclarator () [(.identity, some name), (.init, value)],
      plain .variableDeclaration word [(.declarations, some size)]]
  | .function name params body =>
    let names := match name with
      | some name => [plain .identifier name []]
      | none => []
    let identity := match name with
      | some _ => some size
      | none => none
    let traits : FunctionTraits := ⟨false, false⟩
    names ++ [blockOf body,
      plain .functionDeclaration traits
        ((.identity, identity) :: all .params params ++ [(.body, some (size + names.length))])]
  | .unknown tag => [.ofEntries (.unknown tag) []]
  | .node n => [n]

/-- Puts the nodes of a step at the end of an arena. -/
def push (arena : Array Node) (s : BuildStep) : Array Node := arena ++ s.nodes arena.size

end BuildStep

end SyntaxLens

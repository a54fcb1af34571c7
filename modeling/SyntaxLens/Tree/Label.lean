import SyntaxLens.Tree.Basic

/-! # Labels

The short detail that outlines show beside the kind of a node: the name, operator, value or word
that tells it from its siblings. It is empty where the kind says everything. -/

namespace SyntaxLens.Tree

variable (t : Tree)

/-- The form of the one child that a node has in a role. -/
def childForm? (n : Node) (r : Role) : Option Form :=
  ((n.child? r).bind t.node?).map Node.form

/-- A name or literal in a role, for use in the label of its parent. -/
def nameIn (n : Node) (r : Role) : String :=
  match t.childForm? n r with
  | some (.known .identifier name) => name
  | some (.known .stringLiteral value) => Text.quoted value
  | some (.known .numericLiteral number) => NumberTraits.text number
  | _ => ""

/-- The name of a method behind its accessor. -/
def methodLabel (use : MethodUse) (name : String) : String :=
  match use.accessor? with
  | some word => word ++ " " ++ name
  | none => name

/-- The name of a function with its marks. -/
def functionLabel (traits : FunctionTraits) (name : String) : String :=
  let name := if traits.async then "async " ++ name else name
  let name := if traits.generator then name ++ "*" else name
  String.ofList (Text.trim name.toList)

/-- The label of a node that is known to the grammar. -/
def labelOf (n : Node) : (kind : Kind) → kind.Traits → String
  | .identifier, (name : String) => name
  | .stringLiteral, (value : String) | .directiveLiteral, (value : String) => Text.quoted value
  | .numericLiteral, (number : NumberTraits) => number.text
  | .booleanLiteral, (value : Bool) => if value then "true" else "false"
  | .nullLiteral, _ => "null"
  | .regExpLiteral, (re : RegExpTraits) => "/" ++ re.pattern ++ "/" ++ re.flags
  | .program, (sourceType : String) => sourceType
  | .variableDeclaration, (d : Declarator) => d.word
  | .variableDeclarator, _ | .classDeclaration, _ | .classExpression, _ => t.nameIn n .identity
  | .functionDeclaration, (f : FunctionTraits) | .functionExpression, (f : FunctionTraits) =>
    functionLabel f (t.nameIn n .identity)
  | .objectMethod, (m : MethodTraits) => methodLabel m.use (t.nameIn n .key)
  | .classMethod, (m : ClassMethodTraits) =>
    let label := methodLabel m.use (t.nameIn n .key)
    if m.static then "static " ++ label else label
  | .objectProperty, _ | .classProperty, _ => t.nameIn n .key
  | .unaryExpression, (u : UnaryTraits) | .updateExpression, (u : UnaryTraits) => u.operator
  | .binaryExpression, (operator : String) | .assignmentExpression, (operator : String)
  | .logicalExpression, (operator : String) => operator
  | .memberExpression, (computed : Bool) =>
    let name := t.nameIn n .property
    if computed then "[" ++ name ++ "]" else "." ++ name
  | .callExpression, _ | .newExpression, _ => t.nameIn n .callee
  | .labeledStatement, _ | .breakStatement, _ | .continueStatement, _ => t.nameIn n .label
  | .importDeclaration, _ | .exportAllDeclaration, _ => t.nameIn n .source
  | .switchCase, _ => if (n.child? .test).isNone then "default" else ""
  | _, _ => ""

/-- The label of a node; empty outside the arena. -/
def label (id : NodeId) : String :=
  match t.node? id with
  | none => ""
  | some n =>
    match n.form with
    | .known kind traits => t.labelOf n kind traits
    | .unknown _ => ""

end SyntaxLens.Tree

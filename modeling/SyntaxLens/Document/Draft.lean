import SyntaxLens.Grammar.Form
import SyntaxLens.Json.Basic
import SyntaxLens.Notice

/-! # Drafts

A draft is a document as it was read: a tree of forms in which a place may be empty, and in which a
node may be named by an id instead of standing there.

* `Draft.ofJson` reads a value. It never fails: what is no node leaves its place empty.
* The children of a node are labelled with their roles and come in the order of `Kind.reading`, the
  elements of a list one by one.
* `Draft.notices` are the reports on a draft, in the order in which its parts were read. -/

namespace SyntaxLens

/-- Why a place is empty. -/
inductive Gap where
  /-- Nothing is there, or nothing that could be a node. -/
  | missing
  /-- An object without a tag. -/
  | untyped
  /-- A reference to an id that is not in the table. -/
  | dangling (id : Nat)
  /-- A reference to a node that another reference has taken. -/
  | repeated (id : Nat)
deriving DecidableEq, Repr

/-- What was read in one place of a document. -/
inductive Draft where
  | gap (cause : Gap)
  | reference (id : Nat)
  | node (form : Form) (children : List (Role × Draft))

instance : Inhabited Draft := ⟨.gap .missing⟩

/-! ### Traits -/

namespace Json.Members

/-- A member that is a string, else the empty string. -/
def string (ms : Members) (key : String) : String := ((ms.get? key).bind Json.string?).getD ""

/-- A member that is true or false, else `default`. -/
def flag (ms : Members) (key : String) (default : Bool) : Bool :=
  ((ms.get? key).bind Json.bool?).getD default

end Json.Members

/-- The traits of a node of a kind, from the members of its object. Members that are missing or of
another type count as empty text, as zero and as false; an operator stands in front of its operand
unless the document says otherwise. -/
def Kind.readTraits (ms : Json.Members) : (kind : Kind) → kind.Traits
  | .program => ms.string "sourceType"
  | .identifier => ms.string "name"
  | .regExpLiteral => RegExpTraits.mk (ms.string "pattern") (ms.string "flags")
  | .stringLiteral | .directiveLiteral => ms.string "value"
  | .booleanLiteral => ms.flag "value" false
  | .numericLiteral =>
    NumberTraits.mk (((ms.get? "value").bind Json.double?).getD Double.zero)
      (((ms.get? "extra").bind (·.get? "raw")).bind Json.string?)
  | .forInStatement | .forOfStatement => ms.flag "await" false
  | .functionDeclaration | .functionExpression =>
    FunctionTraits.mk (ms.flag "generator" false) (ms.flag "async" false)
  | .arrowFunctionExpression => ms.flag "async" false
  | .variableDeclaration => Declarator.ofWord (ms.string "kind")
  | .yieldExpression => ms.flag "delegate" false
  | .objectProperty => PropertyTraits.mk (ms.flag "computed" false) (ms.flag "shorthand" false)
  | .objectMethod =>
    MethodTraits.mk (.ofWord (ms.string "kind")) (ms.flag "computed" false)
      (ms.flag "generator" false) (ms.flag "async" false)
  | .classMethod =>
    ClassMethodTraits.mk
      (MethodTraits.mk (.ofWord (ms.string "kind")) (ms.flag "computed" false)
        (ms.flag "generator" false) (ms.flag "async" false))
      (ms.flag "static" false)
  | .classProperty => ClassPropertyTraits.mk (ms.flag "computed" false) (ms.flag "static" false)
  | .unaryExpression | .updateExpression =>
    UnaryTraits.mk (ms.string "operator") (ms.flag "prefix" true)
  | .binaryExpression | .assignmentExpression | .logicalExpression => ms.string "operator"
  | .memberExpression => ms.flag "computed" false
  | .file | .nullLiteral | .directive | .expressionStatement | .blockStatement | .emptyStatement
  | .debuggerStatement | .withStatement | .returnStatement | .labeledStatement | .breakStatement
  | .continueStatement | .ifStatement | .switchStatement | .switchCase | .throwStatement
  | .tryStatement | .catchClause | .whileStatement | .doWhileStatement | .forStatement
  | .variableDeclarator | .classDeclaration | .decorator | .superReference | .importCallee
  | .thisExpression | .awaitExpression | .arrayExpression | .objectExpression | .spreadElement
  | .spreadProperty | .bindExpression | .conditionalExpression | .callExpression | .newExpression
  | .sequenceExpression | .doExpression | .classExpression | .objectPattern | .arrayPattern
  | .restElement | .restProperty | .assignmentPattern | .classBody | .importDeclaration
  | .importSpecifier | .importDefaultSpecifier | .importNamespaceSpecifier
  | .exportNamedDeclaration | .exportSpecifier | .exportDefaultDeclaration
  | .exportAllDeclaration => ()

/-- The form that a tag and the members of an object give. -/
def Form.read (tag : String) (ms : Json.Members) : Form :=
  match Kind.ofTag? tag with
  | some kind => .known kind (kind.readTraits ms)
  | none => .unknown tag

/-- The places for children in the order in which they are read. -/
def Form.reading : Form → List Place
  | .known kind _ => kind.reading
  | .unknown _ => []

/-! ### Reading -/

namespace Draft

/-- A value read in both ways in which it can stand in a role: as one child and as a list. -/
structure Reading where
  child : Draft
  items : List Draft

/-- The children that stand in a place, labelled with its role. -/
def childrenIn (rs : List (String × Reading)) (p : Place) : List (Role × Draft) :=
  match p.arity, rs.lookup p.role.name with
  | .one, some r => [(p.role, r.child)]
  | .one, none => [(p.role, .gap .missing)]
  | .many, some r => r.items.map (p.role, ·)
  | .many, none => []

/-- The node of an object whose members have been read. -/
def ofReadings (ms : Json.Members) (rs : List (String × Reading)) : Draft :=
  match (ms.get? "type").bind Json.string? with
  | some tag =>
    let form := Form.read tag ms
    .node form (form.reading.flatMap (childrenIn rs))
  | none => .gap .untyped

mutual

def read : Json → Reading
  | .object ms => ⟨ofReadings ms (readMembers ms), []⟩
  | .array items => ⟨.gap .missing, readItems items⟩
  | .number (.natural n) => ⟨.reference n, []⟩
  | .number _ | .null | .bool _ | .string _ => ⟨.gap .missing, []⟩

def readItems : List Json → List Draft
  | [] => []
  | item :: rest => (read item).child :: readItems rest

def readMembers : List (String × Json) → List (String × Reading)
  | [] => []
  | (key, value) :: rest => (key, read value) :: readMembers rest

end

/-- The draft of the node that a value is. -/
def ofJson (json : Json) : Draft :=
  match json with
  | .object _ => (read json).child
  | _ => .gap .missing

/-! ### Notices -/

/-- The reports on an empty place. -/
def gapNotices : Gap → List Notice
  | .missing => []
  | .untyped => [.untyped]
  | .dangling id => [.dangling id]
  | .repeated id => [.repeated id]

mutual

/-- The reports on a draft, a node before its children. -/
def notices : Draft → List Notice
  | .gap cause => gapNotices cause
  | .reference _ => []
  | .node form children =>
    (if form.isUnknown then [.unknownKind form.tag] else []) ++ childNotices children

def childNotices : List (Role × Draft) → List Notice
  | [] => []
  | (_, d) :: rest => notices d ++ childNotices rest

end

end Draft

end SyntaxLens

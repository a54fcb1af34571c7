import SyntaxLens.Grammar.Role
import SyntaxLens.Number.Positional

/-! # Forms of nodes

The form of a node is what it says beside its children: its kind and the traits that nodes of this
kind have. A tag that no kind has is a form of its own, without traits and without children.

* `Kind.Traits` gives the type of the traits of every kind.
* `Form.places` are the places for children, by the grammar table of the kind. -/

namespace SyntaxLens

/-- The word that begins a variable declaration. -/
inductive Declarator where
  | var | let | const
deriving DecidableEq, Repr

namespace Declarator

/-- Words other than `let` and `const` count as `var`. -/
def ofWord (word : String) : Declarator :=
  if word = "let" then .let else if word = "const" then .const else .var

def word : Declarator → String
  | .var => "var"
  | .let => "let"
  | .const => "const"

theorem ofWord_word (d : Declarator) : ofWord d.word = d := by cases d <;> decide

end Declarator

/-- What a method is for. -/
inductive MethodUse where
  | method | get | set | constructor
deriving DecidableEq, Repr

namespace MethodUse

/-- Unknown words count as plain methods. -/
def ofWord (word : String) : MethodUse :=
  if word = "get" then .get
  else if word = "set" then .set
  else if word = "constructor" then .constructor
  else .method

/-- The word in front of the key of a getter or setter. -/
def accessor? : MethodUse → Option String
  | .get => some "get"
  | .set => some "set"
  | .method | .constructor => none

end MethodUse

/-! ### Traits -/

structure RegExpTraits where
  pattern : String
  flags : String
deriving DecidableEq, Repr

/-- A number and, where the parser recorded it, its spelling in the source. -/
structure NumberTraits where
  value : Double
  raw : Option String
deriving DecidableEq, Repr

/-- The spelling in the source if it is known, else the text of the value. -/
def NumberTraits.text (t : NumberTraits) : String := t.raw.getD t.value.text

structure FunctionTraits where
  generator : Bool
  async : Bool
deriving DecidableEq, Repr

structure PropertyTraits where
  computed : Bool
  shorthand : Bool
deriving DecidableEq, Repr

structure MethodTraits where
  use : MethodUse
  computed : Bool
  generator : Bool
  async : Bool
deriving DecidableEq, Repr

structure ClassMethodTraits extends MethodTraits where
  static : Bool
deriving DecidableEq, Repr

structure ClassPropertyTraits where
  computed : Bool
  static : Bool
deriving DecidableEq, Repr

/-- An operator with one operand; `leading` if it stands in front of it. -/
structure UnaryTraits where
  operator : String
  leading : Bool
deriving DecidableEq, Repr

/-- The traits of the nodes of a kind: the source type of a program, the name of an identifier, the
value of a literal, the flag `await` of a loop, `async` of an arrow function, `delegate` of a
yield, `computed` of a member access, the operator of a binary operation, and the structures
above. -/
def Kind.Traits : Kind → Type
  | .program | .identifier | .stringLiteral | .directiveLiteral | .binaryExpression
  | .assignmentExpression | .logicalExpression => String
  | .booleanLiteral | .forInStatement | .forOfStatement | .arrowFunctionExpression
  | .yieldExpression | .memberExpression => Bool
  | .regExpLiteral => RegExpTraits
  | .numericLiteral => NumberTraits
  | .functionDeclaration | .functionExpression => FunctionTraits
  | .variableDeclaration => Declarator
  | .objectProperty => PropertyTraits
  | .objectMethod => MethodTraits
  | .classMethod => ClassMethodTraits
  | .classProperty => ClassPropertyTraits
  | .unaryExpression | .updateExpression => UnaryTraits
  | .file | .nullLiteral | .directive | .expressionStatement | .blockStatement | .emptyStatement
  | .debuggerStatement | .withStatement | .returnStatement | .labeledStatement | .breakStatement
  | .continueStatement | .ifStatement | .switchStatement | .switchCase | .throwStatement
  | .tryStatement | .catchClause | .whileStatement | .doWhileStatement | .forStatement
  | .variableDeclarator | .classDeclaration | .decorator | .superReference | .importCallee
  | .thisExpression | .awaitExpression | .arrayExpression | .objectExpression | .spreadElement
  | .spreadProperty | .bindExpression | .conditionalExpression | .callExpression | .newExpression
  | .sequenceExpression | .doExpression | .classExpression | .objectPattern | .arrayPattern
  | .restElement | .restProperty | .assignmentPattern | .classBody | .importDeclaration
  | .importSpecifier | .importDefaultSpecifier | .importNamespaceSpecifier
  | .exportNamedDeclaration | .exportSpecifier | .exportDefaultDeclaration
  | .exportAllDeclaration => Unit

instance (k : Kind) : DecidableEq k.Traits := by
  cases k <;> unfold Kind.Traits <;> infer_instance

instance (k : Kind) : Repr k.Traits := by
  cases k <;> unfold Kind.Traits <;> infer_instance

/-- What a node says beside its children. -/
inductive Form where
  | known (kind : Kind) (traits : kind.Traits)
  | unknown (tag : String)
deriving DecidableEq, Repr

namespace Form

def kind? : Form → Option Kind
  | .known kind _ => some kind
  | .unknown _ => none

/-- The tag, of an unknown form just as it was given. -/
def tag : Form → String
  | .known kind _ => kind.tag
  | .unknown tag => tag

def isUnknown : Form → Bool
  | .known .. => false
  | .unknown _ => true

/-- The places for children, in grammar order. -/
def places : Form → List Place
  | .known kind _ => kind.roles
  | .unknown _ => []

/-- The role that a step down goes to. -/
def primary : Form → Option Role
  | .known kind _ => kind.primary
  | .unknown _ => none

/-- The name of an identifier. -/
def identifierName? : Form → Option String
  | .known .identifier name => some name
  | _ => none

end Form

end SyntaxLens

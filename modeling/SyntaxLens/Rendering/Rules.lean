import SyntaxLens.Rendering.Plan

/-! # Rules

The rule of a kind gives the plan for a node of that kind. Statements stand on lines of their own;
a block stays on the line and sets its body apart. Operators are displayed where the tree has them:
no parentheses are added.

Every table has the rules for its own family. A table without a rule for a node hands it to another
one, which `Table.next` names: the main table hands a node to the family of its kind, and all other
tables hand it to the main table. -/

namespace SyntaxLens

open Rendering

namespace Rendering

variable (t : Tree) (n : Node)

def inline (parts : List Part) : Plan := ⟨.inline, parts⟩

def block (parts : List Part) : Plan := ⟨.block, parts⟩

def declaration : Table := .family .declaration

def pattern : Table := .family .pattern

def moduleClause : Table := .family .moduleClause

def objectMember : Table := .family .objectMember

def classMember : Table := .family .classMember

/-- A keyword that is there only if a flag is set. -/
def wordIf (flag : Bool) (text : String) : List Part := if flag then [keyword text] else []

/-- A mark that is there only if a flag is set. -/
def markIf (flag : Bool) (text : String) : List Part := if flag then [mark text] else []

/-- A body between braces, set apart. -/
def braced (body : List Part) : List Part := between "\x7b" "\x7d" [.group .block body]

/-- The key of a member, between brackets if it is computed. -/
def key (computed : Bool) : List Part :=
  if computed then between "[" "]" (only t n .key .main) else only t n .key .main

/-- The parameters of a function. -/
def params : List Part := between "(" ")" [commas t n .params pattern]

/-- The condition in the head of a statement. -/
def condition (r : Role) : List Part := between "(" ")" (only t n r .main)

/-! ### Literals -/

def regExp (re : RegExpTraits) : Plan :=
  inline ([mark "/", .leaf ⟨.literal, re.pattern⟩, mark "/"] ++
    if re.flags.isEmpty then [] else [.leaf ⟨.literal, re.flags⟩])

/-- The text of a string literal: between single quotes, those inside behind a backslash. -/
def singleQuoted (s : String) : String :=
  let escaped := s.toList.flatMap fun c => if c = '\'' then ['\\', '\''] else [c]
  String.ofList ('\'' :: escaped ++ ['\''])

def text (kind : LeafClass) (s : String) : Plan := inline [.leaf ⟨kind, s⟩]

/-- The placeholder for a node of unknown kind. -/
def placeholder (tag : String) : Plan := text .unknown ("[UNKNOWN: " ++ tag ++ "]")

/-! ### Expressions -/

def arrow (async : Bool) : Plan :=
  inline (wordIf async "async" ++ params t n ++ [mark "=>"] ++ only t n .body .main)

def yield (delegate : Bool) : Plan :=
  inline ([keyword "yield"] ++ markIf delegate "*" ++ only t n .argument .main)

def array (table : Table) : Plan := inline (between "[" "]" [commas t n .elements table])

def object : Plan := inline (between "\x7b" "\x7d" [commas t n .properties objectMember])

/-- The operator in front of the operand or behind it. -/
def unary (u : UnaryTraits) : Plan :=
  let argument := only t n .argument .main
  inline (if u.leading then operator u.operator :: argument else argument ++ [operator u.operator])

def operation (symbol : String) : Plan :=
  inline (only t n .left .main ++ [operator symbol] ++ only t n .right .main)

def spread (table : Table) : Plan := inline (mark "..." :: only t n .argument table)

def member (computed : Bool) : Plan :=
  let name := only t n .property .main
  inline (only t n .object .main ++ if computed then between "[" "]" name else mark "." :: name)

def bind : Plan := inline (only t n .object .main ++ [mark "::"] ++ only t n .callee .main)

def conditional : Plan :=
  inline (only t n .test .main ++ [mark "?"] ++ only t n .consequent .main ++ [mark ":"] ++
    only t n .alternate .main)

def call (words : List Part) : Plan :=
  inline (words ++ only t n .callee .main ++ between "(" ")" [commas t n .arguments .main])

/-- A keyword and the one child behind it. -/
def prefixed (word : String) (r : Role) : Plan := inline (keyword word :: only t n r .main)

/-- A property of an object. A shorthand one is shown by its value alone, and by its key if the
value is absent or an identifier. -/
def objectProperty (p : PropertyTraits) : Plan :=
  let value := only t n .value .main
  inline (each t n .decorators .main ++
    if p.shorthand then
      if value.isEmpty || (nameOf? t n .value).isSome then key t n p.computed else value
    else key t n p.computed ++ [mark ":"] ++ value)

/-- What comes before the key of a method, and the rest of the method. -/
def method (m : MethodTraits) : List Part :=
  wordIf m.async "async" ++ markIf m.generator "*" ++ (m.use.accessor?.map keyword).toList ++
    key t n m.computed ++ params t n ++ only t n .body .main

/-! ### Statements -/

def blockStatement : Plan :=
  inline (braced (each t n .directives .main ++ each t n .body .main))

/-- A keyword, the one child behind it, and a semicolon. -/
def sentence (word : String) (r : Role) : Plan :=
  block ([keyword word] ++ only t n r .main ++ [mark ";"])

def labeled : Plan := block (only t n .label .main ++ [mark ":"] ++ only t n .body .main)

def ifStatement : Plan :=
  block ([keyword "if"] ++ condition t n .test ++ only t n .consequent .main ++
    led [keyword "else"] (only t n .alternate .main))

def switchStatement : Plan :=
  block ([keyword "switch"] ++ condition t n .discriminant ++ braced (each t n .cases .main))

def switchCase : Plan :=
  let test := only t n .test .main
  block ((if test.isEmpty then [keyword "default"] else keyword "case" :: test) ++
    [mark ":", .group .block (each t n .consequent .main)])

def tryStatement : Plan :=
  block ([keyword "try"] ++ only t n .block .main ++ only t n .handler .main ++
    led [keyword "finally"] (only t n .finalizer .main))

def catchClause : Plan :=
  let param := only t n .param pattern
  inline ([keyword "catch"] ++ (if param.isEmpty then [] else between "(" ")" param) ++
    only t n .body .main)

/-- A keyword with a condition and a body. -/
def guarded (word : String) (r : Role) : Plan :=
  block ([keyword word] ++ condition t n r ++ only t n .body .main)

def doWhile : Plan :=
  block ([keyword "do"] ++ only t n .body .main ++ [keyword "while"] ++ condition t n .test ++
    [mark ";"])

def forStatement : Plan :=
  block ([keyword "for"] ++
    between "(" ")" (only t n .init .loopHead ++ [mark ";"] ++ only t n .test .main ++ [mark ";"] ++
      only t n .update .main) ++
    only t n .body .main)

def forEach (word : String) (await : Bool) : Plan :=
  block ([keyword "for"] ++ wordIf await "await" ++
    between "(" ")" (only t n .left .loopHead ++ [keyword word] ++ only t n .right .main) ++
    only t n .body .main)

/-! ### Declarations and classes -/

def function (flow : Flow) (f : FunctionTraits) : Plan :=
  ⟨flow, wordIf f.async "async" ++ [keyword "function"] ++ markIf f.generator "*" ++
    only t n .identity .main ++ params t n ++ only t n .body .main⟩

def declared (d : Declarator) : List Part := [keyword d.word, commas t n .declarations declaration]

def declarator : Plan :=
  inline (only t n .identity pattern ++ led [mark "="] (only t n .init .main))

def classOf (flow : Flow) : Plan :=
  ⟨flow, each t n .decorators .main ++ [keyword "class"] ++ only t n .identity .main ++
    led [keyword "extends"] (only t n .superClass .main) ++ only t n .body .main⟩

def classMethod (m : ClassMethodTraits) : Plan :=
  block (each t n .decorators .main ++ wordIf m.static "static" ++ method t n m.toMethodTraits)

def classProperty (p : ClassPropertyTraits) : Plan :=
  block (each t n .decorators .main ++ wordIf p.static "static" ++ key t n p.computed ++
    led [mark "="] (only t n .value .main) ++ [mark ";"])

/-! ### Modules -/

/-- Whether the specifier at an index is a named one, which goes between braces. -/
def isNamed (slot : Option NodeId) : Bool :=
  ((slot.bind t.node?).bind Node.kind?) == some .importSpecifier

/-- The indices of the filled slots of the specifiers, named ones or the others. -/
def specifiers (named : Bool) : List Nat :=
  ((n.slots .specifiers).zipIdx.filter fun (slot, _) => slot.isSome && isNamed t slot == named).map
    Prod.snd

/-- An import: first the specifiers without braces, then the named ones. -/
def importDeclaration : Plan :=
  let plain := specifiers t n false
  let named := specifiers t n true
  let outside := if plain.isEmpty then [] else [commasAt t n .specifiers plain moduleClause]
  let inside :=
    if named.isEmpty then []
    else between "\x7b" "\x7d" [commasAt t n .specifiers named moduleClause]
  let comma := if plain.isEmpty || named.isEmpty then [] else [mark ","]
  let clause :=
    if plain.isEmpty && named.isEmpty then []
    else [.group .inline (outside ++ comma ++ inside), keyword "from"]
  block ([keyword "import"] ++ clause ++ only t n .source .main ++ [mark ";"])

/-- Two names with `as` between them, or the first alone if both are the same identifier. -/
def renamed (first second : Role) : Plan :=
  let same := (nameOf? t n first).isSome && nameOf? t n first == nameOf? t n second
  inline (only t n first .main ++
    if same then [] else led [keyword "as"] (only t n second .main))

/-- An export of a declaration, or else of the specifiers. -/
def exportNamed : Plan :=
  let exported := onlyContinued t n .declaration declaration
  if exported.isEmpty then
    block ([keyword "export"] ++ between "\x7b" "\x7d" [commas t n .specifiers moduleClause] ++
      led [keyword "from"] (only t n .source .main) ++ [mark ";"])
  else block (keyword "export" :: exported)

/-- A default export. Functions and classes end without a semicolon. -/
def exportDefault : Plan :=
  let closed := kindOf? t n .declaration == some .functionDeclaration ||
    kindOf? t n .declaration == some .classDeclaration
  block ([keyword "export", keyword "default"] ++ onlyContinued t n .declaration declaration ++
    markIf (!closed) ";")

/-! ### Tables -/

/-- The rules of the main table. -/
def mainRule? : (kind : Kind) → kind.Traits → Option Plan
  | .file, _ => some (block (only t n .program .main))
  | .program, _ => some (block (each t n .directives .main ++ each t n .body .main))
  | .identifier, (name : String) => some (text .identifier name)
  | .regExpLiteral, (re : RegExpTraits) => some (regExp re)
  | .nullLiteral, _ => some (inline [keyword "null"])
  | .stringLiteral, (value : String) | .directiveLiteral, (value : String) =>
    some (text .literal (singleQuoted value))
  | .booleanLiteral, (value : Bool) => some (inline [keyword (if value then "true" else "false")])
  | .numericLiteral, (number : NumberTraits) => some (text .literal number.text)
  | .directive, _ => some (block (only t n .value .main ++ [mark ";"]))
  | .expressionStatement, _ => some (block (only t n .expression .main ++ [mark ";"]))
  | .blockStatement, _ => some (blockStatement t n)
  | .emptyStatement, _ => some (block [mark ";"])
  | .debuggerStatement, _ => some (block [keyword "debugger", mark ";"])
  | .withStatement, _ => some (guarded t n "with" .object)
  | .returnStatement, _ => some (sentence t n "return" .argument)
  | .throwStatement, _ => some (sentence t n "throw" .argument)
  | .labeledStatement, _ => some (labeled t n)
  | .breakStatement, _ => some (sentence t n "break" .label)
  | .continueStatement, _ => some (sentence t n "continue" .label)
  | .ifStatement, _ => some (ifStatement t n)
  | .switchStatement, _ => some (switchStatement t n)
  | .switchCase, _ => some (switchCase t n)
  | .tryStatement, _ => some (tryStatement t n)
  | .catchClause, _ => some (catchClause t n)
  | .whileStatement, _ => some (guarded t n "while" .test)
  | .doWhileStatement, _ => some (doWhile t n)
  | .forStatement, _ => some (forStatement t n)
  | .forInStatement, (await : Bool) => some (forEach t n "in" await)
  | .forOfStatement, (await : Bool) => some (forEach t n "of" await)
  | .decorator, _ => some (block (mark "@" :: only t n .expression .main))
  | .superReference, _ => some (inline [keyword "super"])
  | .importCallee, _ => some (inline [keyword "import"])
  | .thisExpression, _ => some (inline [keyword "this"])
  | .arrowFunctionExpression, (async : Bool) => some (arrow t n async)
  | .yieldExpression, (delegate : Bool) => some (yield t n delegate)
  | .awaitExpression, _ => some (prefixed t n "await" .argument)
  | .arrayExpression, _ => some (array t n .main)
  | .objectExpression, _ => some (object t n)
  | .functionExpression, (f : FunctionTraits) => some (function t n .inline f)
  | .unaryExpression, (u : UnaryTraits) | .updateExpression, (u : UnaryTraits) =>
    some (unary t n u)
  | .binaryExpression, (symbol : String) | .assignmentExpression, (symbol : String)
  | .logicalExpression, (symbol : String) => some (operation t n symbol)
  | .spreadElement, _ | .spreadProperty, _ => some (spread t n .main)
  | .memberExpression, (computed : Bool) => some (member t n computed)
  | .bindExpression, _ => some (bind t n)
  | .conditionalExpression, _ => some (conditional t n)
  | .callExpression, _ => some (call t n [])
  | .newExpression, _ => some (call t n [keyword "new"])
  | .sequenceExpression, _ => some (inline [commas t n .expressions .main])
  | .doExpression, _ => some (prefixed t n "do" .body)
  | .classExpression, _ => some (classOf t n .inline)
  | .classBody, _ => some (inline (braced (each t n .body classMember)))
  | _, _ => none

/-- The rules for declarations. -/
def declarationRule? : (kind : Kind) → kind.Traits → Option Plan
  | .functionDeclaration, (f : FunctionTraits) => some (function t n .block f)
  | .variableDeclaration, (d : Declarator) => some (block (declared t n d ++ [mark ";"]))
  | .variableDeclarator, _ => some (declarator t n)
  | .classDeclaration, _ => some (classOf t n .block)
  | _, _ => none

/-- The rules for patterns. -/
def patternRule? : (kind : Kind) → kind.Traits → Option Plan
  | .identifier, (name : String) => some (text .identifier name)
  | .objectPattern, _ => some (object t n)
  | .arrayPattern, _ => some (array t n pattern)
  | .restElement, _ | .restProperty, _ => some (spread t n pattern)
  | .assignmentPattern, _ =>
    some (inline (only t n .left pattern ++ [mark "="] ++ only t n .right .main))
  | _, _ => none

/-- The rules for imports and exports. -/
def moduleRule? : (kind : Kind) → kind.Traits → Option Plan
  | .importDeclaration, _ => some (importDeclaration t n)
  | .importSpecifier, _ => some (renamed t n .imported .localName)
  | .importDefaultSpecifier, _ => some (inline (only t n .localName .main))
  | .importNamespaceSpecifier, _ =>
    some (inline ([mark "*", keyword "as"] ++ only t n .localName .main))
  | .exportNamedDeclaration, _ => some (exportNamed t n)
  | .exportSpecifier, _ => some (renamed t n .localName .exported)
  | .exportDefaultDeclaration, _ => some (exportDefault t n)
  | .exportAllDeclaration, _ =>
    some (block ([keyword "export", mark "*", keyword "from"] ++ only t n .source .main ++
      [mark ";"]))
  | _, _ => none

/-- The rules for the members of objects. -/
def objectMemberRule? : (kind : Kind) → kind.Traits → Option Plan
  | .objectProperty, (p : PropertyTraits) => some (objectProperty t n p)
  | .objectMethod, (m : MethodTraits) => some (inline (each t n .decorators .main ++ method t n m))
  | .spreadElement, _ | .spreadProperty, _ => some (spread t n .main)
  | .restElement, _ | .restProperty, _ => some (spread t n pattern)
  | _, _ => none

/-- The rules for the members of classes. -/
def classMemberRule? : (kind : Kind) → kind.Traits → Option Plan
  | .classMethod, (m : ClassMethodTraits) => some (classMethod t n m)
  | .classProperty, (p : ClassPropertyTraits) => some (classProperty t n p)
  | _, _ => none

/-- The head of a loop holds a declaration on the line and without its semicolon. -/
def loopHeadRule? : (kind : Kind) → kind.Traits → Option Plan
  | .variableDeclaration, (d : Declarator) => some (inline (declared t n d))
  | _, _ => none

/-- The rule that a table has for a form. -/
def rule? (table : Table) : Form → Option Plan
  | .unknown tag => if table = .main then some (placeholder tag) else none
  | .known kind traits =>
    match table with
    | .main => mainRule? t n kind traits
    | .family .declaration => declarationRule? t n kind traits
    | .family .pattern => patternRule? t n kind traits
    | .family .moduleClause => moduleRule? t n kind traits
    | .family .objectMember => objectMemberRule? t n kind traits
    | .family .classMember => classMemberRule? t n kind traits
    | .loopHead => loopHeadRule? t n kind traits

end Rendering

/-- The family whose table has the rule for a kind that the main table has none for. -/
def Kind.family? : Kind → Option Family
  | .functionDeclaration | .variableDeclaration | .variableDeclarator | .classDeclaration =>
    some .declaration
  | .objectProperty | .objectMethod => some .objectMember
  | .objectPattern | .arrayPattern | .restElement | .restProperty | .assignmentPattern =>
    some .pattern
  | .classMethod | .classProperty => some .classMember
  | .importDeclaration | .importSpecifier | .importDefaultSpecifier | .importNamespaceSpecifier
  | .exportNamedDeclaration | .exportSpecifier | .exportDefaultDeclaration
  | .exportAllDeclaration => some .moduleClause
  | _ => none

/-- The table that takes a node which a table has no rule for. -/
def Table.next (table : Table) (form : Form) : Table :=
  match table with
  | .main => ((form.kind?.bind Kind.family?).map Table.family).getD .main
  | _ => .main

end SyntaxLens

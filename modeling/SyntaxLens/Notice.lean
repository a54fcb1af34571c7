/-! # Notices

What loading and rendering report beside their result. A notice never changes the result. -/

namespace SyntaxLens

/-- The tables that hold the rules for one family of nodes. -/
inductive Family where
  | declaration | pattern | moduleClause | objectMember | classMember
deriving DecidableEq, Repr

/-- Something worth reporting. -/
inductive Notice where
  /-- A reference to an id that the table of nodes does not have. -/
  | dangling (id : Nat)
  /-- A second reference to a node. -/
  | repeated (id : Nat)
  /-- An object in the place of a node that has no tag. -/
  | untyped
  /-- A tag that no kind has. -/
  | unknownKind (tag : String)
  /-- A node outside the family that its place is for. -/
  | outsider (family : Family) (tag : String)
deriving DecidableEq, Repr

/-- What a node outside a family is called. -/
def Family.denial : Family → String
  | .declaration => "not a declaration"
  | .pattern => "not a pattern"
  | .moduleClause => "not a module clause"
  | .objectMember => "not an object member"
  | .classMember => "not a class member"

/-- The line of a notice in a log: its level, its message and its value. -/
def Notice.text : Notice → String
  | .dangling id => "WARN dangling node reference, loading as absent id=" ++ toString id
  | .repeated id => "WARN node referenced twice, loading repeat as absent id=" ++ toString id
  | .untyped => "WARN object without a type tag in a node field, loading as absent"
  | .unknownKind tag => "DEBUG no rule for node kind kind=" ++ tag
  | .outsider family tag => "DEBUG " ++ family.denial ++ ", using main table kind=" ++ tag

end SyntaxLens

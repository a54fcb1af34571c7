import SyntaxLens.Fragment.Basic
import SyntaxLens.Json.Basic

/-! # Fragments as values

A fragment as an object that names its type first, so that data formats can carry it. -/

namespace SyntaxLens

/-- The object of a mark. -/
def Mark.toJson (m : Mark) : Json :=
  .object [("id", .number (.natural m.id)), ("kind", .string m.tag),
    ("path", .string (Path.text m.path)), ("focused", .bool m.focused)]

/-- The object of a leaf. Tokens are named by kind, other texts by class. -/
def Leaf.toJson (l : Leaf) : Json :=
  if l.kind.isToken then
    .object [("type", .string "token"), ("kind", .string l.kind.name), ("text", .string l.text)]
  else
    .object [("type", .string "text"), ("text", .string l.text), ("class", .string l.kind.name)]

namespace Fragment

mutual

/-- The object of a fragment. -/
def toJson : Fragment → Json
  | .leaf l => l.toJson
  | .composite flow mark children =>
    .object ([("type", .string "composite"), ("layout", .string flow.name)] ++
      (mark.map fun m => ("node", m.toJson)).toList ++ [("children", .array (toJsonAll children))])

def toJsonAll : List Fragment → List Json
  | [] => []
  | f :: rest => toJson f :: toJsonAll rest

end

end Fragment

end SyntaxLens

import SyntaxLens.Json.Printer
import SyntaxLens.Yaml.Scalar

/-! # Writing YAML

Values in block style. A mapping stands two deeper than its key, a list at the indent of its key;
the items of a list go on two deeper than their dash. Empty mappings and lists stand in brackets. -/

namespace SyntaxLens.Yaml

def pad (indent : Nat) : List Char := List.replicate indent ' '

/-- Ends a line unless it has ended, with a line end of any kind. -/
def closed (s : String) : String := if s.toList.getLast?.any isBreak then s else s ++ "\n"

mutual

/-- What stands behind a key at an indent, with the end of the line. -/
def valueAt (indent : Nat) : Json → String
  | .null => " null\n"
  | .bool b => if b then " true\n" else " false\n"
  | .number n => " " ++ Json.writeNumber n ++ "\n"
  | .string s => " " ++ closed (scalar (pad (indent + 2)) s)
  | .array [] => " []\n"
  | .array items => "\n" ++ itemsAt indent items
  | .object [] => " \x7b\x7d\n"
  | .object ms => "\n" ++ String.ofList (pad (indent + 2)) ++ membersAt (indent + 2) ms

/-- The items of a list at an indent. -/
def itemsAt (indent : Nat) : List Json → String
  | [] => ""
  | item :: rest => String.ofList (pad indent) ++ "-" ++ itemAt indent item ++ itemsAt indent rest

/-- What stands behind the dash of an item. -/
def itemAt (indent : Nat) : Json → String
  | .null => " null\n"
  | .bool b => if b then " true\n" else " false\n"
  | .number n => " " ++ Json.writeNumber n ++ "\n"
  | .string s => " " ++ closed (scalar (pad (indent + 2)) s)
  | .array [] => " []\n"
  | .array (item :: rest) =>
    " -" ++ itemAt (indent + 2) item ++ itemsAt (indent + 2) rest
  | .object [] => " \x7b\x7d\n"
  | .object ms => " " ++ membersAt (indent + 2) ms

/-- The members of a mapping at an indent; the first stands where the line has got to. -/
def membersAt (indent : Nat) : List (String × Json) → String
  | [] => ""
  | [(key, item)] => scalar [] key ++ ":" ++ valueAt indent item
  | (key, item) :: rest =>
    scalar [] key ++ ":" ++ valueAt indent item ++ String.ofList (pad indent) ++
      membersAt indent rest

end

/-- A whole document. -/
def document (json : Json) : String :=
  match json with
  | .null => "null\n"
  | .bool b => if b then "true\n" else "false\n"
  | .number n => Json.writeNumber n ++ "\n"
  | .string s => closed (scalar (pad 2) s)
  | .array [] => "[]\n"
  | .array items => itemsAt 0 items
  | .object [] => "\x7b\x7d\n"
  | .object ms => membersAt 0 ms

end SyntaxLens.Yaml

import SyntaxLens.Settings.Value
import SyntaxLens.Toml.Scalar

/-! # Nodes of a TOML document

What a document says, before it is read as a value: scalars, lists and tables, each with its place.

* `Node.toValue` is the value of a node. Moments become their text. A table whose first name is
  `Node.momentName` stands for a moment itself: it has to have the text of one there, and what else
  it holds does not count. The place where no such text stands is the failure. -/

namespace SyntaxLens.Toml

/-- A node, with the text from its place on. A table that was begun without a line or a brace of its
own is at the name that began it. -/
inductive Node where
  | scalar (s : Scalar) (place : List Char)
  | list (items : List Node) (place : List Char)
  | table (entries : List (String × Node)) (place : List Char)

namespace Node

def place : Node → List Char
  | .scalar _ place | .list _ place | .table _ place => place

/-- The name that makes a table a moment. -/
def momentName : String := "$__toml_private_datetime"

/-- The moment whose text a node is. -/
def moment (n : Node) : Except (List Char) Moment :=
  match n with
  | .scalar (.text s) place =>
    match Moment.ofText? s with
    | some m => .ok m
    | none => .error place
  | _ => .error n.place

/-- The value of a scalar. -/
def atomOf : Scalar → Atom
  | .bool b => .bool b
  | .integer n => .integer n
  | .real x => .real x
  | .text s => .text s
  | .moment m => .text m.text

mutual

def toValue : Node → Except (List Char) Value
  | .scalar s _ => .ok (.atom (atomOf s) none)
  | .list items _ => do return .list (← toValues items) none
  | .table entries _ =>
    match entries with
    | [] => .ok .empty
    | (name, n) :: rest =>
      if name = momentName then do return .atom (.text (← n.moment).text) none
      else do return .table ((name, ← toValue n) :: (← toEntries rest)) none

def toValues : List Node → Except (List Char) (List Value)
  | [] => .ok []
  | n :: rest => do return (← toValue n) :: (← toValues rest)

def toEntries : List (String × Node) → Except (List Char) (List (String × Value))
  | [] => .ok []
  | (name, n) :: rest => do return (name, ← toValue n) :: (← toEntries rest)

end

end Node

end SyntaxLens.Toml

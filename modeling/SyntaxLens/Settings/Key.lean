import SyntaxLens.Number.Decimal
import SyntaxLens.Text.Pieces

/-! # Setting keys

A key leads to a place in nested tables and lists, step by step: to an entry of a table by its name,
or to an element of a list by its index.

* `Key.parse?` takes a written key apart: a name, then names behind points and indices in brackets.
  A name is not empty, and holds ASCII letters, digits, `_`, `-` and spaces only. An index is an
  integer of 64 bits, negative if it counts from the end of the list.
* `Key.text` is the written form of a key. -/

namespace SyntaxLens.Settings

/-- A step of a key. -/
inductive Step where
  | name (n : String)
  | index (i : Int)
deriving DecidableEq, Repr

abbrev Key := List Step

namespace Key

/-! ### Reading -/

def isNameChar (c : Char) : Bool := c.isAlphanum || c == '_' || c == '-' || c == ' '

/-- A step with a name. -/
def name? (cs : List Char) : Option Step :=
  if !cs.isEmpty && cs.all isNameChar then some (.name (String.ofList cs)) else none

def isBlank (c : Char) : Bool := c == ' ' || c == '\t'

/-- An index, with blanks around it. -/
def index? (cs : List Char) : Option Step :=
  let word := ((cs.dropWhile isBlank).reverse.dropWhile isBlank).reverse
  let (negative, digits) := match word with
    | '-' :: rest => (true, rest)
    | _ => (false, word)
  match Decimal.readDigits? digits with
  | some n =>
    if n < Nat.pow 2 63 ∨ (negative ∧ n = Nat.pow 2 63) then
      some (.index (if negative then -n else n))
    else none
  | none => none

/-- An index behind its opening bracket. Nothing stands behind the closing one. -/
def closed? (cs : List Char) : Option Step :=
  match cs.reverse with
  | ']' :: word => index? word.reverse
  | _ => none

/-- The steps between two points: a name, then indices. -/
def piece? (cs : List Char) : Option Key :=
  match Text.pieces '[' cs with
  | first :: indices => do return (← name? first) :: (← indices.mapM closed?)
  | [] => none

/-- The steps of a written key. -/
def parse? (key : String) : Option Key := do
  return (← (Text.pieces '.' key.toList).mapM piece?).flatten

/-! ### Writing -/

/-- The written form of a key. No point stands behind an index. -/
def text : Key → String
  | [] => ""
  | [.name n] => n
  | .name n :: .index i :: rest => n ++ text (.index i :: rest)
  | .name n :: rest => n ++ "." ++ text rest
  | .index i :: rest => "[" ++ toString i ++ "]" ++ text rest

end Key

end SyntaxLens.Settings

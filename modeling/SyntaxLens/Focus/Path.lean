import SyntaxLens.Grammar.Role
import SyntaxLens.Number.Decimal
import SyntaxLens.Text.Blank
import SyntaxLens.Text.Pieces
import SyntaxLens.Text.Quoted

/-! # Focus paths

A path leads from the root of a tree to one of its nodes, one segment a step: the name of a field
and, where the field holds a list, an index.

* `Path.text` writes a path, as in `body[0].expression`; the empty path is written `<root>`.
* `Path.parse` reads it back. The name of a segment has no point and no bracket; the error carries
  the first segment that is no segment. -/

namespace SyntaxLens

/-- One step of a path. The name need not be one of the grammar. -/
structure Segment where
  field : String
  index : Option Nat
deriving DecidableEq, Repr

namespace Segment

/-- The step to the one child in a role. -/
def single (r : Role) : Segment := ⟨r.name, none⟩

/-- The step to an element of the list in a role. -/
def element (r : Role) (i : Nat) : Segment := ⟨r.name, some i⟩

def text (s : Segment) : String :=
  match s.index with
  | some i => s.field ++ "[" ++ toString i ++ "]"
  | none => s.field

end Segment

/-- Steps from the root to a node. The empty path is that of the root. -/
abbrev Path := List Segment

/-- Why a text is no path, with the segment at fault. -/
inductive PathError where
  | emptyField (segment : String)
  | badIndex (segment : String)
deriving DecidableEq, Repr

def PathError.message : PathError → String
  | .emptyField segment => "empty field name in path segment " ++ Text.quoted segment
  | .badIndex segment => "invalid index in path segment " ++ Text.quoted segment

namespace Path

/-- The written form of the empty path. -/
def rootText : String := "<root>"

def text (p : Path) : String :=
  if p.isEmpty then rootText else ".".intercalate (p.map Segment.text)

/-- The path without its last segment. The root is its own parent. -/
def parent (p : Path) : Path := p.dropLast

/-- The index between the first bracket of a segment and its end. -/
def index? (cs : List Char) : Option Nat :=
  match cs.reverse with
  | ']' :: digits => Decimal.readNat64? digits.reverse
  | _ => none

/-- One segment: a name, and an index behind the first bracket if there is one. -/
def segment (cs : List Char) : Except PathError Segment :=
  let name := cs.takeWhile (· != '[')
  match cs.dropWhile (· != '[') with
  | [] =>
    if name.isEmpty then .error (.emptyField (String.ofList cs))
    else .ok ⟨String.ofList name, none⟩
  | _ :: rest =>
    match index? rest with
    | none => .error (.badIndex (String.ofList cs))
    | some i =>
      if name.isEmpty then .error (.emptyField (String.ofList cs))
      else .ok ⟨String.ofList name, some i⟩

/-- Reads a path, blanks around it aside. Nothing and `<root>` are the path of the root. -/
def parse (raw : String) : Except PathError Path :=
  let cs := Text.trim raw.toList
  if cs.isEmpty || cs == rootText.toList then .ok []
  else (Text.pieces '.' cs).mapM segment

end Path

end SyntaxLens

import SyntaxLens.Fragment.Basic
import SyntaxLens.Notice
import SyntaxLens.Tree.Label

/-! # Plans

A plan says how one node is displayed: whether it stands on a line of its own, and its parts in
order. A part is a leaf, a child that is rendered in its place, or a group of parts. A child that is
absent, or lies outside the arena, has no part; in a comma separated list it leaves a hole.

* `Table` names the tables of rules. A child is rendered through the table of its place.
* `only`, `each` and `commas` are the parts for the children in a role. -/

namespace SyntaxLens

/-- A table of rules. The main table can render any node, the others are for one family of nodes, or
for the head of a loop. -/
inductive Table where
  | main
  | family (f : Family)
  | loopHead
deriving DecidableEq, Repr

namespace Rendering

/-- A part of the display of a node. -/
inductive Part where
  | leaf (leaf : Leaf)
  /-- The child that a segment leads to, rendered through a table; `continued` keeps it on the
  line. -/
  | child (segment : Segment) (id : NodeId) (table : Table) (continued : Bool)
  | group (flow : Flow) (parts : List Part)
deriving Repr

instance : Inhabited Part := ⟨.group .inline []⟩

/-- How a node is displayed. -/
structure Plan where
  flow : Flow
  parts : List Part
deriving Repr

/-! ### Leaves -/

def keyword (text : String) : Part := .leaf ⟨.keyword, text⟩

def mark (text : String) : Part := .leaf ⟨.punctuation, text⟩

def bracket (text : String) : Part := .leaf ⟨.bracket, text⟩

/-- An operator. One of letters only is a keyword. -/
def operator (text : String) : Part :=
  .leaf ⟨if text.toList.all Char.isAlpha then .keyword else .operator, text⟩

def hole : Part := .group .inline []

/-- A lead and what follows it; without anything to follow there is no lead either. -/
def led (lead : List Part) (parts : List Part) : List Part :=
  if parts.isEmpty then [] else lead ++ parts

def between (opening closing : String) (parts : List Part) : List Part :=
  bracket opening :: parts ++ [bracket closing]

/-! ### Children -/

variable (t : Tree) (n : Node)

/-- The child in a slot, if there is one. -/
def slotPart? (s : Segment) (slot : Option NodeId) (table : Table) : Option Part :=
  match slot with
  | some id => if t.has id then some (.child s id table false) else none
  | none => none

/-- The one child in a role. -/
def only (r : Role) (table : Table) : List Part :=
  (slotPart? t (.single r) (n.child? r) table).toList

/-- The one child in a role, kept on the line. -/
def onlyContinued (r : Role) (table : Table) : List Part :=
  match n.child? r with
  | some id => if t.has id then [.child (.single r) id table true] else []
  | none => []

/-- The children of a list, one after the other. -/
def each (r : Role) (table : Table) : List Part :=
  (n.slots r).zipIdx.filterMap fun (slot, i) => slotPart? t (.element r i) slot table

/-- The slots of a list at the given indices, separated by commas. -/
def commasAt (r : Role) (indices : List Nat) (table : Table) : Part :=
  .group .inline <| List.intersperse (mark ",") <| indices.map fun i =>
    (slotPart? t (.element r i) ((n.slots r)[i]?.join) table).getD hole

/-- The slots of a list, separated by commas. -/
def commas (r : Role) (table : Table) : Part :=
  commasAt t n r (List.range (n.slots r).length) table

/-- The name of the identifier in a role. -/
def nameOf? (r : Role) : Option String := (t.childForm? n r).bind Form.identifierName?

/-- The kind of the child in a role. -/
def kindOf? (r : Role) : Option Kind := (t.childForm? n r).bind Form.kind?

end Rendering

end SyntaxLens

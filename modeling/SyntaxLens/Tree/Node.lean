import SyntaxLens.Focus.Path
import SyntaxLens.Grammar.Form

/-! # Nodes

A node of a tree: its form and its children, which are given by their places in the arena.

* `Field` is what stands in one role: an optional child, or a list whose empty slots are holes.
* `Node.fits` ties the fields of a node to the grammar: they are the places of its form, in order.
* `Node.ofEntries` arranges children that are labelled with roles into the fields of a form.
* `Node.segments` pairs the present children with the segments that lead to them. -/

namespace SyntaxLens

/-- The place of a node in its arena. -/
abbrev NodeId := Nat

/-- The written form of a place. -/
def NodeId.text (id : NodeId) : String := "#" ++ toString id

/-- What stands in one role of a node. -/
inductive Field where
  | one (child : Option NodeId)
  | many (slots : List (Option NodeId))
deriving DecidableEq, Repr

namespace Field

def arity : Field → Arity
  | .one _ => .one
  | .many _ => .many

def isList (f : Field) : Bool := f.arity == .many

/-- The child at an index: none is given for a single field, one in range for a list. -/
def at? : Field → Option Nat → Option NodeId
  | .one child, none => child
  | .many slots, some i => slots[i]?.join
  | _, _ => none

/-- The present children, in order. -/
def ids : Field → List NodeId
  | .one child => child.toList
  | .many slots => slots.filterMap fun slot => slot

/-- The least index from `start` on whose slot is filled. -/
def nextPresent? (f : Field) (start : Nat) : Option Nat :=
  match f with
  | .one _ => none
  | .many slots => ((slots.drop start).findIdx? Option.isSome).map (· + start)

/-- The greatest index up to `start` whose slot is filled. -/
def prevPresent? (f : Field) (start : Nat) : Option Nat :=
  match f with
  | .one _ => none
  | .many slots =>
    let upTo := (slots.take (start + 1)).reverse
    (upTo.findIdx? Option.isSome).map fun i => upTo.length - 1 - i

/-- The present children, each with the segment that leads to it. -/
def segments (r : Role) : Field → List (Segment × NodeId)
  | .one child => child.toList.map fun id => (.single r, id)
  | .many slots =>
    slots.zipIdx.filterMap fun (slot, i) => slot.map fun id => (.element r i, id)

/-- The first segment that leads to a child. -/
def segmentTo? (r : Role) (child : NodeId) : Field → Option Segment
  | .one slot => if slot = some child then some (.single r) else none
  | .many slots => (slots.findIdx? (· == some child)).map (.element r)

end Field

/-- The place that a field takes. -/
def Place.ofField (entry : Role × Field) : Place := ⟨entry.1, entry.2.arity⟩

/-- A node: what it is, and its children by their roles. -/
structure Node where
  form : Form
  fields : List (Role × Field)
  fits : fields.map Place.ofField = form.places := by rfl
deriving DecidableEq

namespace Node

/-- The children that are labelled with a role, as the field of a place: the first of them, or
all. -/
def gather (entries : List (Role × Option NodeId)) (p : Place) : Role × Field :=
  match p.arity with
  | .one => (p.role, .one (entries.lookup p.role).join)
  | .many => (p.role, .many ((entries.filter (·.1 == p.role)).map Prod.snd))

theorem ofField_gather (entries : List (Role × Option NodeId)) (p : Place) :
    Place.ofField (gather entries p) = p := by
  obtain ⟨r, a⟩ := p
  cases a <;> rfl

/-- A node of the given form, from children labelled with roles. Children whose role the form does
not have are left out. -/
def ofEntries (form : Form) (entries : List (Role × Option NodeId)) : Node where
  form := form
  fields := form.places.map (gather entries)
  fits := by
    rw [List.map_map]
    exact (List.map_congr_left fun p _ => ofField_gather entries p).trans (List.map_id _)

variable (n : Node)

def tag : String := n.form.tag

def kind? : Option Kind := n.form.kind?

def isUnknown : Bool := n.form.isUnknown

/-- The field in a role. -/
def field? (r : Role) : Option Field := n.fields.lookup r

/-- The field of a name. -/
def fieldNamed? (name : String) : Option Field :=
  (n.fields.find? fun entry => entry.1.name == name).map Prod.snd

/-- The one child in a role. -/
def child? (r : Role) : Option NodeId := (n.field? r).bind fun f => f.at? none

/-- The slots of the list in a role. -/
def slots (r : Role) : List (Option NodeId) :=
  match n.field? r with
  | some (.many slots) => slots
  | _ => []

/-- The present children, in the order of the fields. -/
def children : List NodeId := n.fields.flatMap fun entry => entry.2.ids

/-- The present children, each with the segment that leads to it. -/
def segments : List (Segment × NodeId) :=
  n.fields.flatMap fun entry => entry.2.segments entry.1

/-- The first segment that leads to a child. -/
def segmentTo? (child : NodeId) : Option Segment :=
  n.fields.findSome? fun entry => entry.2.segmentTo? entry.1 child

end Node

end SyntaxLens

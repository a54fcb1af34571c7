import SyntaxLens.Proofs.Tree.Slots
import SyntaxLens.Rendering.Render

/-! # What a node shows of its children

A node shows some of its children.  `drawn` lists them by the grammar, without plans: every present
child of the node, except those in the roles that are left out (`omitted`). -/

namespace SyntaxLens

namespace Node

variable (n : Node)

/-- The present children in a place, each with the segment that leads to it. -/
def held (p : Place) : List (Segment × NodeId) :=
  match p.arity with
  | .one => (n.child? p.role).toList.map fun id => (.single p.role, id)
  | .many => (n.slots p.role).zipIdx.filterMap fun (slot, i) =>
      slot.map fun id => (.element p.role i, id)

theorem field?_of_mem {r : Role} {f : Field} (h : (r, f) ∈ n.fields) : n.field? r = some f := by
  have hnd : (n.fields.map Prod.fst).Nodup := n.map_fst_fields ▸ n.form.roles_nodup
  obtain ⟨before, after, hsplit⟩ := List.append_of_mem h
  refine List.lookup_eq_some_iff.mpr ⟨before, after, hsplit, fun entry hentry => ?_⟩
  rw [hsplit, List.map_append, List.map_cons, List.nodup_append] at hnd
  have hne := hnd.2.2 _ (List.mem_map_of_mem hentry) r List.mem_cons_self
  simpa using Ne.symm hne

theorem held_ofField {r : Role} {f : Field} (h : (r, f) ∈ n.fields) :
    n.held (Place.ofField (r, f)) = f.segments r := by
  have hfield := n.field?_of_mem h
  cases f with
  | one child => simp [held, Place.ofField, Field.arity, child?, hfield, Field.at?, Field.segments]
  | many slots => simp [held, Place.ofField, Field.arity, Node.slots, hfield, Field.segments]

/-- The present children are those in the places of the form. -/
theorem segments_eq_held : n.segments = n.form.places.flatMap n.held := by
  rw [← n.fits, List.flatMap_map, segments]
  exact List.flatMap_congr fun entry hentry => (n.held_ofField hentry).symm

end Node

@[simp] theorem Role.role_one (r : Role) : r.one.role = r := rfl

@[simp] theorem Role.role_many (r : Role) : r.many.role = r := rfl

namespace Rendering

/-! ### Children by the grammar -/

section grammar
variable (t : Tree) (n : Node)

/-- The children in a place that lie in the arena. -/
def present (p : Place) : List (Segment × NodeId) := (n.held p).filter fun c => t.has c.2

/-- Whether there is a child in a role. -/
def hasChild (r : Role) : Bool := (t.childForm? n r).isSome

/-- Whether the child in a role is an identifier. -/
def isIdentifier (r : Role) : Bool := (nameOf? t n r).isSome

/-- Whether the children in two roles are identifiers of one name. -/
def sameName (first second : Role) : Bool :=
  isIdentifier t n first && nameOf? t n first == nameOf? t n second

/-- The roles that the display of a node leaves out.  A shorthand property leaves out its value if
that is an identifier, and its key if the value is anything else; a specifier with the same name
twice leaves out the second; an export with a declaration leaves out everything else. -/
def omitted : List Role :=
  match n.form with
  | .known .objectProperty (p : PropertyTraits) =>
    if !p.shorthand then []
    else if isIdentifier t n .value then [.value]
    else if hasChild t n .value then [.key]
    else []
  | .known .importSpecifier _ => if sameName t n .imported .localName then [.localName] else []
  | .known .exportSpecifier _ => if sameName t n .localName .exported then [.exported] else []
  | .known .exportNamedDeclaration _ =>
    if hasChild t n .declaration then [.specifiers, .source] else []
  | _ => []

/-- The children that the display of a node shows, in the order of the grammar. -/
def drawn : List (Segment × NodeId) :=
  (n.form.places.filter fun p => p.role ∉ omitted t n).flatMap (present t n)

end grammar

section children
variable (t : Tree) (n : Node) (r : Role) (table : Table)

theorem present_one : present t n r.one =
    ((n.child? r).filter t.has).toList.map fun id => (.single r, id) := by
  unfold present Node.held Role.one
  cases n.child? r with
  | none => rfl
  | some id => cases h : t.has id <;> simp [Option.filter, h]

/-- What is in the slot of a list at an index. -/
def slotDrawn (i : ℕ) : List (Segment × NodeId) :=
  ((n.slots r)[i]?.join.filter t.has).toList.map (.element r i, ·)

theorem zipIdx_eq_map_range {α : Type} (l : List (Option α)) :
    l.zipIdx = (List.range l.length).map fun i => (l[i]?.join, i) := by
  refine List.ext_getElem (by simp) fun i h _ => ?_
  have hi : i < l.length := by simpa using h
  simp [hi]

/-- The children in a list, index by index. -/
theorem present_many :
    present t n r.many = (List.range (n.slots r).length).flatMap (slotDrawn t n r) := by
  simp only [present, Node.held, Role.many, List.filterMap_eq_flatMap_toList, List.filter_flatMap,
    zipIdx_eq_map_range (n.slots r), List.flatMap_map]
  refine List.flatMap_congr fun i _ => ?_
  unfold slotDrawn
  cases (n.slots r)[i]?.join with
  | none => rfl
  | some id => cases h : t.has id <;> simp [Option.filter, h]

/-- A part is there where there is a child. -/
@[simp] theorem isEmpty_only : (only t n r table).isEmpty = !hasChild t n r := by
  unfold only hasChild Tree.childForm? slotPart? Tree.node? Tree.has
  cases n.child? r with
  | none => simp
  | some id => by_cases h : id < t.nodes.size <;> simp [h]

@[simp] theorem isEmpty_onlyContinued :
    (onlyContinued t n r table).isEmpty = !hasChild t n r := by
  unfold onlyContinued hasChild Tree.childForm? Tree.node? Tree.has
  cases n.child? r with
  | none => simp
  | some id => by_cases h : id < t.nodes.size <;> simp [h]

variable {r}

theorem present_eq_nil (h : hasChild t n r = false) : present t n r.one = [] := by
  unfold hasChild Tree.childForm? Tree.node? at h
  rw [present_one]
  cases hchild : n.child? r with
  | none => rfl
  | some id =>
      have hid : ¬ id < t.nodes.size := by simpa [hchild] using h
      simp [Option.filter, Tree.has, hid]

theorem hasChild_of_isIdentifier (h : isIdentifier t n r = true) : hasChild t n r = true := by
  unfold isIdentifier nameOf? at h
  obtain ⟨name, hname⟩ := Option.isSome_iff_exists.mp h
  obtain ⟨form, hform, _⟩ := Option.bind_eq_some_iff.mp hname
  rw [hasChild, hform, Option.isSome_some]

end children

end Rendering

end SyntaxLens

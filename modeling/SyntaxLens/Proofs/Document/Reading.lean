import SyntaxLens.Proofs.Document.Placement

/-! # Values as nodes

What a value of a nested document stands for, said of the value itself.

* `Json.tag?` is the tag of an object.  The tag gives the places for children, and `Json.children`
  are the values in them, in the order in which they are read; null stands for a missing member.
* `Draft.inPlace` is the draft of a value in the place of a node.  An object with a tag gives a node
  whose children are the drafts of its children (`Draft.inPlace_object`); nothing else gives a node
  (`Draft.node?_inPlace`). -/

namespace SyntaxLens

theorem Kind.ofTag?_eq_some_iff (tag : String) (k : Kind) : ofTag? tag = some k ↔ tag = k.tag := by
  constructor
  · intro h
    have htag : k.tag = tag := by simpa using List.find?_some h
    exact htag.symm
  · rintro rfl
    exact k.ofTag?_tag

/-! ### Places of a tag -/

namespace Place

/-- The places for children in nodes of a tag. -/
def ofTag (tag : String) : List Place :=
  match Kind.ofTag? tag with
  | some kind => kind.roles
  | none => []

/-- The places for children in nodes of a tag, in the order in which they are read. -/
def readingOf (tag : String) : List Place :=
  match Kind.ofTag? tag with
  | some kind => kind.reading
  | none => []

end Place

namespace Form

variable (tag : String) (ms : Json.Members)

theorem places_read : (read tag ms).places = Place.ofTag tag := by
  unfold read Place.ofTag
  cases Kind.ofTag? tag <;> rfl

theorem reading_read : (read tag ms).reading = Place.readingOf tag := by
  unfold read Place.readingOf
  cases Kind.ofTag? tag <;> rfl

theorem tag_read : (read tag ms).tag = tag := by
  unfold read
  cases h : Kind.ofTag? tag with
  | none => rfl
  | some kind => exact ((Kind.ofTag?_eq_some_iff tag kind).mp h).symm

theorem kind?_read : (read tag ms).kind? = Kind.ofTag? tag := by
  unfold read
  cases Kind.ofTag? tag <;> rfl

end Form

theorem Place.readingOf_perm (tag : String) : (readingOf tag).Perm (ofTag tag) := by
  rw [← Form.reading_read tag [], ← Form.places_read tag []]
  exact Form.reading_perm _

theorem Place.readingOf_nodup (tag : String) : ((readingOf tag).map role).Nodup := by
  rw [← Form.reading_read tag []]
  exact Form.reading_nodup _

/-! ### Children of a value -/

namespace Json

/-- The tag of an object. -/
def tag? (json : Json) : Option String := (json.get? "type").bind string?

/-- The elements of an array, and none for other values. -/
def items : Json → List Json
  | .array items => items
  | .null | .bool _ | .number _ | .string _ | .object _ => []

/-- The elements of an array that is a member, and none if the member is missing or no array. -/
def elements (json : Json) (key : String) : List Json := (json.get? key).elim [] items

/-- The values that stand in a place of an object, labelled with its role. -/
def childrenIn (json : Json) (p : Place) : List (Role × Json) :=
  match p.arity with
  | .one => [(p.role, (json.get? p.role.name).getD .null)]
  | .many => (json.elements p.role.name).map (p.role, ·)

/-- The values that stand in the places of an object with a tag. -/
def children (json : Json) : List (Role × Json) :=
  json.tag?.elim [] fun tag => (Place.readingOf tag).flatMap json.childrenIn

variable (json : Json)

theorem fst_of_mem_childrenIn (p : Place) : ∀ e ∈ json.childrenIn p, e.1 = p.role := by
  obtain ⟨r, a⟩ := p
  intro e he
  cases a with
  | one =>
      obtain rfl := List.mem_singleton.mp he
      rfl
  | many =>
      obtain ⟨_, _, rfl⟩ := List.mem_map.mp he
      rfl

/-- The children that stand in a place are those labelled with its role. -/
theorem filter_children {tag : String} (h : json.tag? = some tag) {p : Place}
    (hp : p ∈ Place.ofTag tag) : json.children.filter (·.1 == p.role) = json.childrenIn p := by
  rw [children, h]
  exact filter_flatMap_role (Place.readingOf_nodup tag) json.fst_of_mem_childrenIn
    ((Place.readingOf_perm tag).mem_iff.mpr hp)

end Json

/-! ### Drafts of values -/

namespace Draft

theorem readItems_eq (items : List Json) : readItems items = items.map fun j => (read j).child := by
  induction items with
  | nil => rfl
  | cons item rest ih => rw [readItems, ih, List.map_cons]

theorem items_read (json : Json) : (read json).items = json.items.map fun j => (read j).child := by
  cases json with
  | array items => exact readItems_eq items
  | number n => cases n <;> rfl
  | null | bool _ | string _ | object _ => rfl

theorem lookup_readMembers (ms : Json.Members) (key : String) :
    (readMembers ms).lookup key = (Json.Members.get? ms key).map read := by
  unfold Json.Members.get?
  induction ms with
  | nil => rfl
  | cons m rest ih =>
      obtain ⟨k, value⟩ := m
      rw [readMembers, List.lookup_cons, List.lookup_cons]
      cases key == k with
      | true => rfl
      | false => exact ih

theorem childrenIn_readMembers (ms : Json.Members) (p : Place) :
    childrenIn (readMembers ms) p =
      ((Json.object ms).childrenIn p).map fun e => (e.1, (read e.2).child) := by
  obtain ⟨r, a⟩ := p
  have hlookup := lookup_readMembers ms r.name
  cases hget : Json.Members.get? ms r.name with
  | none =>
      rw [hget, Option.map_none] at hlookup
      cases a <;> simp [childrenIn, hlookup, Json.childrenIn, Json.elements, Json.get?, hget, read]
  | some value =>
      rw [hget, Option.map_some] at hlookup
      cases a <;>
        simp [childrenIn, hlookup, Json.childrenIn, Json.elements, Json.get?, hget, items_read]

section object
variable {ms : Json.Members}

theorem child_of_tag {tag : String} (h : (Json.object ms).tag? = some tag) :
    (read (.object ms)).child = .node (Form.read tag ms)
      ((Json.object ms).children.map fun e => (e.1, (read e.2).child)) := by
  have htag : (Json.Members.get? ms "type").bind Json.string? = some tag := h
  rw [Json.children, h, Option.elim_some, List.map_flatMap, ← Form.reading_read tag ms]
  simp only [read, ofReadings, htag, funext (childrenIn_readMembers ms)]

theorem child_of_no_tag (h : (Json.object ms).tag? = none) :
    (read (.object ms)).child = .gap .untyped := by
  have htag : (Json.Members.get? ms "type").bind Json.string? = none := h
  simp only [read, ofReadings, htag]

/-- An entry is of a kind if its object has the tag of the kind. -/
theorem kind?_ofJson (json : Json) (kind : Kind) :
    (ofJson json).kind? = some kind ↔ json.tag? = some kind.tag := by
  cases json with
  | object ms =>
      cases h : (Json.object ms).tag? with
      | none =>
          rw [ofJson, child_of_no_tag h]
          simp [kind?]
      | some tag =>
          rw [ofJson, child_of_tag h, kind?, Form.kind?_read, Kind.ofTag?_eq_some_iff,
            Option.some.injEq]
  | null | bool _ | number _ | string _ | array _ => simp [ofJson, kind?, Json.tag?, Json.get?]

end object

/-! ### Drafts without references -/

mutual

theorem settle_missing : ∀ (d : Draft) (taken : Taken),
    d.settle (fun _ taken => (.gap .missing, taken)) taken = (d.withoutReferences, taken)
  | .gap _, _ | .reference _, _ => rfl
  | .node form children, taken => by
      rw [withoutReferences, settle, settle, settleAll_missing children taken,
        settleAll_missing children []]

theorem settleAll_missing : ∀ (ds : List (Role × Draft)) (taken : Taken),
    settleAll (fun _ taken => (.gap .missing, taken)) ds taken =
      (ds.map fun e => (e.1, e.2.withoutReferences), taken)
  | [], _ => rfl
  | (_, d) :: rest, taken => by
      rw [settleAll, settle_missing d taken, settleAll_missing rest taken, List.map_cons]

end

/-- A draft that is a node. -/
def node? : Draft → Option Draft
  | .node form children => some (.node form children)
  | .gap _ | .reference _ => none

/-- The draft of a value in the place of a node of a nested document. -/
def inPlace (json : Json) : Draft := (read json).child.withoutReferences

theorem inPlace_object {ms : Json.Members} {tag : String} (h : (Json.object ms).tag? = some tag) :
    inPlace (.object ms) =
      .node (Form.read tag ms) ((Json.object ms).children.map fun e => (e.1, inPlace e.2)) := by
  simp only [inPlace, child_of_tag h, withoutReferences, settle, settleAll_missing, List.map_map]
  rfl

/-- The objects with a tag stand for nodes. -/
theorem node?_inPlace (json : Json) :
    (inPlace json).node? = if json.tag?.isSome then some (inPlace json) else none := by
  cases json with
  | object ms =>
      cases h : (Json.object ms).tag? with
      | none =>
          rw [inPlace, child_of_no_tag h]
          rfl
      | some tag =>
          rw [inPlace_object h]
          rfl
  | number n => cases n <;> rfl
  | null | bool _ | string _ | array _ => rfl

theorem exists_of_inPlace {json : Json} {form : Form} {children : List (Role × Draft)}
    (h : inPlace json = .node form children) :
    ∃ ms tag, json = .object ms ∧ (Json.object ms).tag? = some tag := by
  have hnode := node?_inPlace json
  rw [h] at hnode
  cases htag : json.tag? with
  | none => rw [htag] at hnode; cases hnode
  | some tag =>
      cases json with
      | object ms => exact ⟨ms, tag, rfl, htag⟩
      | null | bool _ | number _ | string _ | array _ => cases htag

end Draft

end SyntaxLens

import SyntaxLens.Proofs.Document.Layout
import SyntaxLens.Proofs.Document.Loading

/-! # Paths in nested documents

In a nested document a path can be followed without loading: `Json.step?` goes from an object with a
tag to another, by a field that nodes of the tag have.

* A step in the draft of a value is a step in the value (`Draft.step?_inPlace`), and a node has as
  many slots as its object has elements (`Draft.Stored.mirrors`).
* So loading commutes with looking up paths (`Document.load_resolve`): the table of tags, the order
  in which children are read and the fields of nodes use the same names for the same places. -/

namespace SyntaxLens

namespace Json

/-- What a segment names in a value: a member that the tag has a place for, or an element of it if
the place is for a list.  It has to be an object with a tag. -/
def step? (json : Json) (s : Segment) : Option Json := do
  let tag ← json.tag?
  let p ← (Place.ofTag tag).find? fun p => p.role.name == s.field
  let child ← match p.arity, s.index with
    | .one, none => json.get? s.field
    | .many, some i => (json.elements s.field)[i]?
    | .one, some _ | .many, none => none
  if child.tag?.isSome then some child else none

/-- The steps of a path, one after the other. -/
def follow? (json : Json) : Path → Option Json
  | [] => some json
  | s :: rest => (json.step? s).bind fun child => child.follow? rest

variable (json : Json)

/-- What a segment picks from the children of an object. -/
theorem pick_children {tag : String} (h : json.tag? = some tag) (ms : Members) (s : Segment) :
    (Form.read tag ms).pick json.children s =
      ((Place.ofTag tag).find? fun p => p.role.name == s.field).bind fun p =>
        match p.arity, s.index with
        | .one, none => some ((json.get? p.role.name).getD .null)
        | .many, some i => (json.elements p.role.name)[i]?
        | .one, some _ | .many, none => none := by
  rw [Form.pick, Form.places_read]
  cases hfind : (Place.ofTag tag).find? fun p => p.role.name == s.field with
  | none => rfl
  | some p =>
      have hfilter := json.filter_children h (List.mem_of_find?_eq_some hfind)
      obtain ⟨r, a⟩ := p
      rw [Option.bind_some]
      cases a <;> cases s.index
      · simp [lookup_eq_getElem?_filter, hfilter, childrenIn]
      · rfl
      · rfl
      · simp [hfilter, childrenIn]

end Json

namespace Draft

theorem bind_node?_inPlace (child : Option Json) :
    (child.map inPlace).bind node? =
      (child.bind fun j => if j.tag?.isSome then some j else none).map inPlace := by
  cases child with
  | none => rfl
  | some j =>
      rw [Option.map_some, Option.bind_some, Option.bind_some, node?_inPlace]
      split <;> rfl

/-- A step in the draft of a value is a step in the value. -/
theorem step?_inPlace (json : Json) (s : Segment) :
    (inPlace json).step? s = (json.step? s).map inPlace := by
  cases htag : json.tag? with
  | none =>
      rw [Json.step?, htag]
      cases hd : inPlace json with
      | gap _ | reference _ => rfl
      | node form children =>
          obtain ⟨ms, tag, rfl, hsome⟩ := exists_of_inPlace hd
          rw [htag] at hsome
          cases hsome
  | some tag =>
      cases json with
      | object ms =>
          rw [inPlace_object htag, step?, Form.pick_map, Json.pick_children _ htag, Json.step?,
            htag]
          simp only [Option.bind_eq_bind, Option.bind_some]
          cases hfind : (Place.ofTag tag).find? fun p => p.role.name == s.field with
          | none => rfl
          | some p =>
              have hname : p.role.name = s.field := by simpa using List.find?_some hfind
              simp only [Option.bind_some, hname]
              cases p.arity <;> cases s.index
              · -- A missing member and null are both no node.
                cases (Json.object ms).get? s.field with
                | none => rfl
                | some value => exact bind_node?_inPlace (some value)
              · rfl
              · rfl
              · exact bind_node?_inPlace _
      | null | bool _ | number _ | string _ | array _ => cases htag

theorem follow?_inPlace (p : Path) : ∀ json : Json,
    (inPlace json).follow? p = (json.follow? p).map inPlace := by
  induction p with
  | nil => intro json; rfl
  | cons s rest ih =>
      intro json
      rw [follow?, Json.follow?, step?_inPlace]
      cases json.step? s with
      | none => rfl
      | some child => exact ih child

end Draft

/-! ### Nodes and the objects that they were read from -/

namespace Node

/-- The node has the tag of the object and the fields that go with it, and its lists are as long as
the arrays of the object. -/
structure Mirrors (n : Node) (json : Json) : Prop where
  tag : json.tag? = some n.tag
  fields : n.fields.map Place.ofField = Place.ofTag n.tag
  slots : ∀ (r : Role) (slots : List (Option NodeId)), (r, Field.many slots) ∈ n.fields →
    slots.length = (json.elements r.name).length

theorem length_slots {form : Form} {entries : List (Role × Option NodeId)} {r : Role}
    {slots : List (Option NodeId)} (h : (r, Field.many slots) ∈ (ofEntries form entries).fields) :
    ⟨r, .many⟩ ∈ form.places ∧ slots.length = (entries.map Prod.fst).count r := by
  obtain ⟨⟨r', a⟩, hp, hgather⟩ := List.mem_map.mp h
  cases a with
  | one => cases hgather
  | many =>
      obtain ⟨rfl, hslots⟩ := Prod.mk.inj hgather
      obtain rfl := Field.many.inj hslots
      refine ⟨hp, ?_⟩
      rw [List.length_map, List.count, List.countP_map, List.countP_eq_length_filter]
      rfl

end Node

/-- As many children have the role of a list as the list has elements. -/
theorem Json.count_children {json : Json} {tag : String} (h : json.tag? = some tag) {r : Role}
    (hr : ⟨r, .many⟩ ∈ Place.ofTag tag) :
    (json.children.map Prod.fst).count r = (json.elements r.name).length := by
  have hfilter := congrArg List.length (json.filter_children h hr)
  rw [List.count, List.countP_map, List.countP_eq_length_filter]
  refine hfilter.trans ?_
  rw [childrenIn, List.length_map]

/-- A node with the form of an object and with an entry for every child of it mirrors the object. -/
theorem Node.mirrors_ofEntries {ms : Json.Members} {tag : String}
    (htag : (Json.object ms).tag? = some tag) {entries : List (Role × Option NodeId)}
    (hlabels : entries.map Prod.fst = (Json.object ms).children.map Prod.fst) :
    (ofEntries (Form.read tag ms) entries).Mirrors (.object ms) := by
  have hform : (Form.read tag ms).tag = tag := Form.tag_read tag ms
  refine ⟨?_, ?_, ?_⟩
  · rw [htag]
    exact congrArg some hform.symm
  · rw [Node.fits]
    exact (Form.places_read tag ms).trans (congrArg Place.ofTag hform.symm)
  · intro r slots hmem
    obtain ⟨hp, hlen⟩ := Node.length_slots hmem
    rw [Form.places_read] at hp
    rw [hlen, hlabels, Json.count_children htag hp]

/-- What is stored for a value is a node that mirrors it. -/
theorem Draft.Stored.mirrors {nodes : List Node} {t : Tree} (ht : t.nodes = nodes.toArray)
    {id : NodeId} {json : Json} (h : Stored nodes id (inPlace json)) :
    ∃ n, t.node? id = some n ∧ n.Mirrors json := by
  cases hd : inPlace json with
  | gap _ | reference _ => rw [hd] at h; cases h.1
  | node form children =>
      obtain ⟨ms, tag, rfl, htag⟩ := exists_of_inPlace hd
      rw [inPlace_object htag] at h
      refine ⟨_, (h.node? ht).1, Node.mirrors_ofEntries htag ?_⟩
      rw [map_fst_placeAll, List.map_map]
      rfl

namespace Document

theorem resolve_nested {ms : Json.Members} {form : Form} {children : List (Role × Draft)}
    (hnode : (Draft.ofJson (.object ms)).withoutReferences = .node form children) (p : Path) :
    Option.Rel
      (fun id reached => ∃ n, (Draft.node form children).toTree.node? id = some n ∧
        n.Mirrors reached)
      ((Draft.node form children).toTree.resolve p) ((Json.object ms).follow? p) := by
  have hplace : Draft.inPlace (.object ms) = .node form children := hnode
  have hresolve := Draft.resolve_toTree form children p
  rw [← hplace, Draft.follow?_inPlace] at hresolve
  rw [← hplace]
  generalize (Draft.inPlace (.object ms)).toTree.resolve p = found at hresolve ⊢
  cases hreached : (Json.object ms).follow? p with
  | none =>
      rw [hreached, Option.map_none] at hresolve
      cases hresolve
      exact .none
  | some reached =>
      rw [hreached, Option.map_some] at hresolve
      cases hresolve with
      | some hstored => exact .some (hstored.mirrors rfl)

/-- A path resolves in the tree of a nested document exactly if it can be followed in the document,
and leads to the node of the object that is reached there.  Every node is the end of a path, so this
goes for all of them: a node has the tag of its object, whether a kind has it or not, and as many
slots in its lists as the arrays have elements. -/
theorem load_resolve (json : Json) (t : Tree) (hnested : (json.get? "type").isSome)
    (h : load json = .ok t) :
    (∀ p, (t.resolve p).isSome ↔ (json.follow? p).isSome) ∧
    (∀ p id reached, t.resolve p = some id → json.follow? p = some reached →
      ∃ n, t.node? id = some n ∧ n.Mirrors reached) ∧
    ∀ id n, t.node? id = some n → ∃ p reached, t.resolve p = some id ∧
      json.follow? p = some reached ∧ n.Mirrors reached := by
  obtain ⟨d, hd, rfl⟩ := (load_eq_ok_iff json t).mp h
  have hstrict := hd.strict
  cases hd with
  | flat htype _ _ _ => rw [Json.get?, htype] at hnested; cases hnested
  | @nested ms value form children _ hnode =>
      have hrel := resolve_nested hnode
      generalize (Draft.node form children).toTree = t at hstrict hrel ⊢
      refine ⟨fun p => ?_, fun p id reached hp hreached => ?_, fun id n hn => ?_⟩
      · have hp := hrel p
        generalize t.resolve p = found at hp ⊢
        generalize (Json.object ms).follow? p = reached at hp ⊢
        cases hp <;> simp
      · have hp' := hrel p
        rw [hp, hreached] at hp'
        exact Option.rel_some_some.mp hp'
      · obtain ⟨p, hp⟩ : ∃ p, t.resolve p = some id :=
          (t.reached_tfae id).out 0 1 |>.mp (hstrict.mem_order (t.has_of_node? hn))
        have hp' := hrel p
        rw [hp] at hp'
        cases hreached : (Json.object ms).follow? p with
        | none => rw [hreached] at hp'; cases hp'
        | some reached =>
            rw [hreached] at hp'
            obtain ⟨n', hn', hmirrors⟩ := Option.rel_some_some.mp hp'
            obtain rfl := Option.some.inj (hn.symm.trans hn')
            exact ⟨p, reached, hp, hreached, hmirrors⟩

/-- A program with an empty place, a node of a tag that no kind has and a list that is no array. -/
def sketch : Json := .object [("type", .string "Program"), ("body", .array [
  .null,
  .object [("type", .string "ExpressionStatement"),
    ("expression", .object [("type", .string "JSXElement"), ("children", .array [.null])])],
  .object [("type", .string "BlockStatement"), ("body", .string "none")]])]

theorem load_resolve_sketch : ∃ t, load sketch = .ok t ∧
    (t.resolve [⟨"body", some 1⟩, ⟨"expression", none⟩]).isSome ∧
    (∃ n, t.node? 2 = some n ∧ n.tag = "JSXElement") ∧ ¬ (t.resolve [⟨"body", some 0⟩]).isSome := by
  refine ⟨_, rfl, ?_⟩
  obtain ⟨hresolve, hnode, -⟩ := load_resolve sketch _ rfl rfl
  refine ⟨(hresolve _).mpr rfl, ?_, fun h => absurd ((hresolve _).mp h) (by decide)⟩
  obtain ⟨n, hn, hmirrors⟩ :=
    hnode [⟨"body", some 1⟩, ⟨"expression", none⟩] 2 _ (by decide) rfl
  exact ⟨n, hn, (Option.some.inj hmirrors.tag).symm⟩

end Document

end SyntaxLens

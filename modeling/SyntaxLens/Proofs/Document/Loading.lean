import SyntaxLens.Proofs.Document.Reading
import SyntaxLens.Proofs.Document.Settling

/-! # Loading

`Document.Drafts` says which draft a document gives, with the references of a table followed as
derivations; it is what `Document.draft` finds (`Document.draft_eq_ok_iff`).  The draft is a shaped
node in both shapes of documents (`Document.Drafts.shaped_node`), so every document that loads gives
a strict tree: `Document.load_strict`. -/

namespace SyntaxLens.Document

/-- The document has the given draft, and following its references ends. -/
inductive Drafts : Json → Draft → Prop
  | nested {ms : Json.Members} {value : Json} {form : Form} {children : List (Role × Draft)} :
      Json.Members.get? ms "type" = some value →
      (Draft.ofJson (.object ms)).withoutReferences = .node form children →
      Drafts (.object ms) (.node form children)
  | flat {ms : Json.Members} {table : NodeTable} {r : Role} {id : ℕ} {d : Draft}
      {taken : Draft.Taken} :
      Json.Members.get? ms "type" = none → NodeTable.ofMembers? ms = some table →
      table.root? = some id → table.Settles [(r, .reference id)] [] [(r, d)] taken →
      Drafts (.object ms) d

/-- An object with a tag is a nested document. -/
theorem drafts_of_tag {json : Json} {tag : String} (h : json.tag? = some tag) :
    Drafts json (Draft.inPlace json) := by
  cases json with
  | object ms =>
      obtain ⟨value, hvalue, _⟩ := Option.bind_eq_some_iff.mp h
      rw [Draft.inPlace_object h]
      exact .nested hvalue (Draft.inPlace_object h)
  | null | bool _ | number _ | string _ | array _ => cases h

theorem drafts_of_draft {json : Json} {d : Draft} (h : draft json = .ok d) : Drafts json d := by
  unfold draft at h
  split at h
  · split at h
    · rename_i htype
      split at h
      · rename_i hnode
        obtain rfl := Except.ok.inj h
        exact .nested htype hnode
      · cases h
    · rename_i htype
      split at h
      · cases h
      · split at h
        · cases h
        · rename_i table htable
          split at h
          · cases h
          · rename_i id hroot
            obtain rfl := Except.ok.inj h
            obtain ⟨_, hsettles⟩ := table.draftFrom_settles .body id
            exact .flat htype htable hroot hsettles
  · cases h

theorem draft_eq_ok_iff (json : Json) (d : Draft) : draft json = .ok d ↔ Drafts json d := by
  refine ⟨drafts_of_draft, fun h => ?_⟩
  cases h with
  | nested htype hnode => simp [draft, htype, hnode]
  | @flat ms table r id d taken htype htable hroot hsettles =>
      have hfull : ms.isEmpty = false := by
        cases ms with
        | nil =>
            obtain rfl := Option.some.inj htable
            cases hroot
        | cons _ _ => rfl
      simp [draft, htype, hfull, htable, hroot, NodeTable.draftFrom_eq hsettles]

theorem load_eq_ok_iff (json : Json) (t : Tree) :
    load json = .ok t ↔ ∃ d, Drafts json d ∧ d.toTree = t := by
  unfold load
  cases hd : draft json with
  | error e =>
      simp only [Except.map, reduceCtorEq, false_iff, not_exists]
      rintro d ⟨h, -⟩
      rw [(draft_eq_ok_iff json d).mpr h] at hd
      cases hd
  | ok d =>
      simp only [Except.map, Except.ok.injEq, ← draft_eq_ok_iff, hd, exists_eq_left']

/-- What reading makes true of forms and labels holds in every node of a document. -/
theorem Drafts.everywhere {P : Form → List Role → Prop} (hP : Draft.Granted P) {json : Json}
    {d : Draft} (h : Drafts json d) : d.Everywhere P := by
  cases h with
  | @nested ms value form children _ hnode =>
      rw [← hnode]
      exact Draft.everywhere_withoutReferences (Draft.everywhere_ofJson hP _)
  | @flat ms table r id d taken _ htable _ hsettles =>
      rw [← NodeTable.draftFrom_eq hsettles]
      exact NodeTable.everywhere_follow (NodeTable.everywhere_of_ofMembers? hP htable) _ _ _

theorem Drafts.exists_node {json : Json} {d : Draft} (h : Drafts json d) :
    ∃ form children, d = .node form children := by
  cases h with
  | @nested ms value form children _ _ => exact ⟨form, children, rfl⟩
  | @flat ms table r id d taken _ htable hroot hsettles =>
      obtain ⟨form, children, hmem⟩ := NodeTable.exists_of_root? hroot
      have hnd := NodeTable.nodup_of_ofMembers? htable
      have hlookup := (table.lookup_eq_some_iff hnd _ _).mpr hmem
      cases hsettles with
      | dangling hnone _ => simp [hnone] at hlookup
      | repeated _ hmem _ => cases hmem
      | entry hsome _ hsettles =>
          obtain rfl := Option.some.inj (hlookup.symm.trans hsome)
          cases hsettles
          exact ⟨_, _, rfl⟩

theorem Drafts.shaped_node {json : Json} {d : Draft} (h : Drafts json d) :
    d.Shaped ∧ ∃ form children, d = .node form children :=
  ⟨Draft.shaped_of_everywhere (h.everywhere Draft.granted_labels), h.exists_node⟩

theorem Drafts.strict {json : Json} {d : Draft} (h : Drafts json d) : d.toTree.Strict := by
  obtain ⟨hshaped, form, children, rfl⟩ := h.shaped_node
  exact Draft.strict_toTree hshaped

theorem strict_of_load {json : Json} {t : Tree} (h : load json = .ok t) : t.Strict := by
  obtain ⟨d, hd, rfl⟩ := (load_eq_ok_iff json t).mp h
  exact hd.strict

/-- A text that loads holds a document that does. -/
theorem exists_load_of_loadText {text : String} {t : Tree} (h : loadText text = .ok t) :
    ∃ json, load json = .ok t := by
  unfold loadText at h
  split at h
  · exact ⟨_, h⟩
  · cases h

theorem exists_load_of_loadFile {files : Files} {name : String} {t : Tree}
    (h : loadFile files name = .ok t) : ∃ json, load json = .ok t := by
  unfold loadFile at h
  split at h
  · exact exists_load_of_loadText h
  · cases h

/-- A document loads only if following its references ends, and then it gives a strict tree.  The
root is the node 0.  What stands in a child slot lies in the arena, after its owner, and every node
but the root stands in one slot of the whole arena; the owner of that slot is its parent, and the
root has none.  A walk visits every node once, at the depth that its path is long, and every node
has a path; resolving a path and finding the path of a node undo each other. -/
theorem load_strict (json : Json) (t : Tree) (h : load json = .ok t) :
    (∃ d, Drafts json d ∧ d.toTree = t) ∧
    t.root = 0 ∧ t.has 0 ∧
    (∀ owner, ∀ c ∈ t.children owner, owner < c ∧ t.has c) ∧
    (∀ id, t.has id → id ≠ 0 → t.slots.count id = 1) ∧
    (∀ owner, ∀ c ∈ t.children owner, t.parent? c = some owner) ∧ t.parent? 0 = none ∧
    (∀ id, t.has id → t.order.count id = 1) ∧
    (∀ id depth, (id, depth) ∈ t.walk ↔ t.has id ∧ (t.pathOf? id).map List.length = some depth) ∧
    (∀ id, t.has id → (t.pathOf? id).isSome) ∧
    ∀ p id, t.resolve p = some id ↔ t.pathOf? id = some p := by
  obtain ⟨d, hd, rfl⟩ := (load_eq_ok_iff json t).mp h
  have hs := hd.strict
  have hroot := hs.root_eq
  refine ⟨⟨d, hd, rfl⟩, hroot, hroot ▸ hs.has_root, hs.owner_lt, ?_, fun _ _ => hs.parent?_eq,
    hroot ▸ d.toTree.parent?_root, ?_, hs.mem_walk_iff, ?_, hs.resolve_eq_some_iff⟩
  · intro id hhas hne
    exact hs.slot_once id hhas (by rwa [hroot])
  · intro id hhas
    exact List.count_eq_one_of_mem d.toTree.order_nodup (hs.mem_order hhas)
  · intro id hhas
    exact (d.toTree.reached_tfae id).out 0 2 |>.mp (hs.mem_order hhas)

/-- A table with a node that stands in it, a cycle, a node that is named twice and an id that leads
nowhere. -/
def tangle : Json := .object [
  ("1", .object [("type", .string "Program"),
    ("body", .array [.number (.natural 2), .number (.natural 2), .number (.natural 9),
      .object [("type", .string "ExpressionStatement"), ("expression", .number (.natural 3))]])]),
  ("2", .object [("type", .string "BlockStatement"),
    ("body", .array [.number (.natural 1), .number (.natural 2)])]),
  ("3", .object [("type", .string "Identifier"), ("name", .string "x")])]

theorem load_strict_tangle : ∃ t, load tangle = .ok t ∧ t.size = 4 ∧ t.slots = [1, 2, 3] ∧
    t.parent? 3 = some 2 ∧ t.slots.count 3 = 1 ∧
    t.pathOf? 3 = some [⟨"body", some 3⟩, ⟨"expression", none⟩] := by
  refine ⟨_, rfl, rfl, by decide, ?_⟩
  obtain ⟨-, -, -, -, hslot, hparent, -, -, -, -, hpath⟩ := load_strict tangle _ rfl
  exact ⟨hparent 2 3 (by decide), hslot 3 (by decide) (by decide), (hpath _ 3).mp (by decide)⟩

end SyntaxLens.Document

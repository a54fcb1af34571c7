import SyntaxLens.Proofs.Document.Lookup
import SyntaxLens.Proofs.Json.Ordered
import SyntaxLens.Proofs.Number.Decimal

/-! # Which documents load

Only the document as a whole can fail to load, and it is told from its top level in which way
(`Document.load_outcomes`).

* `Document.Misshapen` are the values that are neither a node nor a table, `Document.Rootless` the
  tables without an entry to begin with.
* The keys of a table are numerals, and a number has many of them.  `Json.Members.Enters` says what
  is entered for an id, in terms of keys and their order; it is what the table has for the id
  (`NodeTable.mem_iff_enters`).
* In every other case there is a root, `Json.Members.Begins` for a table, and the node of the root is
  that of its object (`Tree.RootFrom`), whatever stands below. -/

namespace SyntaxLens

/-! ### Entries of a table -/

namespace Json.Members

/-- The value is entered for the id: of the keys that are a numeral of it, the last one counts. -/
def Enters (ms : Members) (id : ℕ) (value : Json) : Prop :=
  ∃ key, (key, value) ∈ ms ∧ Decimal.Denotes key.toList id ∧
    ∀ m ∈ ms, Decimal.Denotes m.1.toList id → m.1 ≤ key

/-- The entry to begin with: the file with the lowest id, and without a file the program with the
lowest id. -/
def Begins (ms : Members) (id : ℕ) (value : Json) : Prop :=
  Enters ms id value ∧
    (value.tag? = some "File" ∧
      (∀ other v, Enters ms other v → v.tag? = some "File" → id ≤ other) ∨
    value.tag? = some "Program" ∧
      ∀ other v, Enters ms other v →
        v.tag? ≠ some "File" ∧ (v.tag? = some "Program" → id ≤ other))

end Json.Members

namespace NodeTable

variable {ms : Json.Members} {table : NodeTable} (h : ofMembers? ms = some table)
  (hordered : ms.Ordered)
include h hordered

theorem mem_iff_enters (id : ℕ) (d : Draft) :
    (id, d) ∈ table ↔ ∃ value, ms.Enters id value ∧ d = Draft.ofJson value := by
  simp only [mem_ofMembers?_iff h, ne_eq, Decimal.readNat64?_eq_some_iff]
  constructor
  · rintro ⟨before, ⟨key, value⟩, after, rfl, hid, rfl, hafter⟩
    refine ⟨value, ⟨key, by simp, hid, fun m hm hm' => ?_⟩, rfl⟩
    have hbefore := (List.pairwise_append.mp hordered).2.2
    rcases List.mem_append.mp hm with hm | hm
    · exact (hbefore m hm _ List.mem_cons_self).le
    · rcases List.mem_cons.mp hm with rfl | hm
      · exact le_rfl
      · exact absurd hm' (hafter m hm)
  · rintro ⟨value, ⟨key, hmem, hid, hlast⟩, rfl⟩
    obtain ⟨before, after, rfl⟩ := List.append_of_mem hmem
    refine ⟨before, (key, value), after, rfl, hid, rfl, fun m hm hm' => ?_⟩
    have hafter := (List.pairwise_cons.mp (List.pairwise_append.mp hordered).2.1).1
    exact absurd (hafter m hm) (not_lt.mpr (hlast m (by simp [hm]) hm'))

theorem lowest?_eq_some_iff_enters (kind : Kind) (id : ℕ) : table.lowest? kind = some id ↔
    (∃ value, ms.Enters id value ∧ value.tag? = some kind.tag) ∧
      ∀ other v, ms.Enters other v → v.tag? = some kind.tag → id ≤ other := by
  simp only [lowest?_eq_some_iff, Prod.forall, mem_iff_enters h hordered]
  refine and_congr ⟨?_, ?_⟩ ⟨?_, ?_⟩
  · rintro ⟨_, ⟨value, hvalue, rfl⟩, hkind⟩
    exact ⟨value, hvalue, (Draft.kind?_ofJson value kind).mp hkind⟩
  · rintro ⟨value, hvalue, htag⟩
    exact ⟨_, ⟨value, hvalue, rfl⟩, (Draft.kind?_ofJson value kind).mpr htag⟩
  · exact fun hle other v hv htag => hle other _ ⟨v, hv, rfl⟩ ((Draft.kind?_ofJson v kind).mpr htag)
  · rintro hle other _ ⟨v, hv, rfl⟩ hkind
    exact hle other v hv ((Draft.kind?_ofJson v kind).mp hkind)

theorem lowest?_eq_none_iff_enters (kind : Kind) :
    table.lowest? kind = none ↔ ∀ id value, ms.Enters id value → value.tag? ≠ some kind.tag := by
  simp only [lowest?_eq_none_iff, Prod.forall, mem_iff_enters h hordered]
  constructor
  · exact fun hne id value hvalue htag =>
      hne id _ ⟨value, hvalue, rfl⟩ ((Draft.kind?_ofJson value kind).mpr htag)
  · rintro hne id _ ⟨value, hvalue, rfl⟩ hkind
    exact hne id value hvalue ((Draft.kind?_ofJson value kind).mp hkind)

theorem root?_eq_none_iff : table.root? = none ↔
    ∀ id value, ms.Enters id value → value.tag? ≠ some "File" ∧ value.tag? ≠ some "Program" := by
  rw [root?, Option.or_eq_none_iff, lowest?_eq_none_iff_enters h hordered,
    lowest?_eq_none_iff_enters h hordered]
  exact ⟨fun hnone id value hvalue => ⟨hnone.1 id value hvalue, hnone.2 id value hvalue⟩,
    fun hnone => ⟨fun id value hvalue => (hnone id value hvalue).1,
      fun id value hvalue => (hnone id value hvalue).2⟩⟩

theorem begins_of_root? {id : ℕ} (hroot : table.root? = some id) :
    ∃ value, ms.Begins id value := by
  rcases Option.or_eq_some_iff.mp hroot with hfile | ⟨hnone, hprogram⟩
  · obtain ⟨⟨value, hvalue, htag⟩, hle⟩ :=
      (lowest?_eq_some_iff_enters h hordered .file id).mp hfile
    exact ⟨value, hvalue, .inl ⟨htag, hle⟩⟩
  · obtain ⟨⟨value, hvalue, htag⟩, hle⟩ :=
      (lowest?_eq_some_iff_enters h hordered .program id).mp hprogram
    exact ⟨value, hvalue, .inr ⟨htag, fun other v hv =>
      ⟨(lowest?_eq_none_iff_enters h hordered .file).mp hnone other v hv, hle other v hv⟩⟩⟩

omit hordered in
/-- The draft that begins at an entry has the form of the object that was entered, and its
children. -/
theorem draftFrom_of_enters {id : ℕ} {members : Json.Members} {tag : String}
    (hmem : (id, Draft.ofJson (.object members)) ∈ table)
    (htag : (Json.object members).tag? = some tag) :
    ∃ children, table.draftFrom id = .node (Form.read tag members) children ∧
      children.map Prod.fst = (Json.object members).children.map Prod.fst := by
  have hlookup := (table.lookup_eq_some_iff (nodup_of_ofMembers? h) id _).mpr hmem
  obtain ⟨levels, hlevels⟩ : ∃ k, table.length = k + 1 :=
    Nat.exists_eq_add_one.mpr (List.length_pos_of_mem hmem)
  rw [Draft.ofJson, Draft.child_of_tag htag] at hlookup
  have hsettled : table.draftFrom id = ((Draft.node (Form.read tag members)
      ((Json.object members).children.map fun e => (e.1, (Draft.read e.2).child))).settle
        (table.follow levels) [id]).1 := by
    rw [draftFrom, hlevels, follow, hlookup]
    rfl
  rw [hsettled, Draft.settle]
  refine ⟨_, rfl, ?_⟩
  rw [Draft.map_fst_settleAll, List.map_map]
  rfl

end NodeTable

/-! ### The root of a tree -/

/-- The root is the node of the object: it has its tag and its traits, and a slot for every child. -/
def Tree.RootFrom (t : Tree) (json : Json) : Prop :=
  ∃ ms tag n, json = .object ms ∧ json.tag? = some tag ∧ t.node? t.root = some n ∧
    n.form = Form.read tag ms ∧ n.Mirrors json

theorem Draft.rootFrom_toTree {ms : Json.Members} {tag : String}
    (htag : (Json.object ms).tag? = some tag) {children : List (Role × Draft)}
    (hlabels : children.map Prod.fst = (Json.object ms).children.map Prod.fst) :
    (Draft.node (Form.read tag ms) children).toTree.RootFrom (.object ms) :=
  ⟨ms, tag, _, rfl, htag, rfl, rfl,
    Node.mirrors_ofEntries htag ((map_fst_placeAll children 1).trans hlabels)⟩

theorem Draft.rootFrom_inPlace {json : Json} {tag : String} (htag : json.tag? = some tag) :
    (inPlace json).toTree.RootFrom json := by
  cases json with
  | object ms =>
      rw [inPlace_object htag]
      refine rootFrom_toTree htag ?_
      rw [List.map_map]
      rfl
  | null | bool _ | number _ | string _ | array _ => cases htag

namespace Document

/-! ### Outcomes -/

/-- The value is no object; or its tag is no string; or it has no tag, and either no member at all
or a key that is no numeral. -/
def Misshapen (json : Json) : Prop :=
  (∀ ms, json ≠ .object ms) ∨
  (∃ value, json.get? "type" = some value ∧ value.string? = none) ∨
  ∃ ms, json = .object ms ∧ json.get? "type" = none ∧
    (ms = [] ∨ ∃ m ∈ ms, ∀ id, ¬ Decimal.Denotes m.1.toList id)

/-- The value has no tag, its keys are numerals, and what is entered for an id is neither a file nor
a program. -/
def Rootless (json : Json) : Prop :=
  ∃ ms, json = .object ms ∧ ms ≠ [] ∧ json.get? "type" = none ∧
    (∀ m ∈ ms, ∃ id, Decimal.Denotes m.1.toList id) ∧
    ∀ id value, Json.Members.Enters ms id value →
      value.tag? ≠ some "File" ∧ value.tag? ≠ some "Program"

/-- The tree was read from the value if it has a tag, and otherwise from the entry to begin with.
Its root is the node of the object there. -/
inductive ReadsFrom (json : Json) (t : Tree) : Prop
  | nested : json.tag?.isSome → t = (Draft.inPlace json).toTree → t.RootFrom json →
      ReadsFrom json t
  | flat {ms : Json.Members} {table : NodeTable} {id : ℕ} {value : Json} :
      json = .object ms → json.get? "type" = none → NodeTable.ofMembers? ms = some table →
      ms.Begins id value → t = (table.draftFrom id).toTree → t.RootFrom value → ReadsFrom json t

theorem isSome_ofMembers?_iff_denotes (ms : Json.Members) : (NodeTable.ofMembers? ms).isSome ↔
    ∀ m ∈ ms, ∃ id, Decimal.Denotes m.1.toList id := by
  simp only [NodeTable.isSome_ofMembers?_iff]
  simp only [Option.isSome_iff_exists, Decimal.readNat64?_eq_some_iff]

variable {json : Json}

theorem draft_of_no_tag {ms : Json.Members} (hms : ms ≠ [])
    (htype : (Json.object ms).get? "type" = none) :
    draft (.object ms) = match NodeTable.ofMembers? ms with
      | none => .error .notANode
      | some table => match table.root? with
        | none => .error .missingRoot
        | some id => .ok (table.draftFrom id) := by
  have hget : Json.Members.get? ms "type" = none := htype
  have hfull : ms.isEmpty = false := List.isEmpty_eq_false_iff.mpr hms
  rw [draft, hget]
  dsimp only
  rw [hfull]
  rfl

theorem load_of_misshapen (h : Misshapen json) : load json = .error .notANode := by
  rcases h with hother | ⟨value, hvalue, hstring⟩ | ⟨ms, rfl, htype, hms⟩
  · cases json with
    | object ms => exact absurd rfl (hother ms)
    | null | bool _ | number _ | string _ | array _ => rfl
  · cases json with
    | object ms =>
        have hget : Json.Members.get? ms "type" = some value := hvalue
        have htag : (Json.object ms).tag? = none := by
          rw [Json.tag?, hvalue]
          exact hstring
        rw [load, draft, hget, Draft.ofJson, Draft.child_of_no_tag htag]
        rfl
    | null | bool _ | number _ | string _ | array _ => cases hvalue
  · by_cases hempty : ms = []
    · rw [hempty]
      rfl
    · obtain ⟨m, hm, hkey⟩ := hms.resolve_left hempty
      have hnone : NodeTable.ofMembers? ms = none := by
        rw [← Option.not_isSome_iff_eq_none, isSome_ofMembers?_iff_denotes]
        intro hall
        obtain ⟨id, hid⟩ := hall m hm
        exact hkey id hid
      rw [load, draft_of_no_tag hempty htype, hnone]
      rfl

theorem load_of_rootless (hordered : json.Ordered) (h : Rootless json) :
    load json = .error .missingRoot := by
  obtain ⟨ms, rfl, hempty, htype, hkeys, hnone⟩ := h
  obtain ⟨table, htable⟩ :=
    Option.isSome_iff_exists.mp ((isSome_ofMembers?_iff_denotes ms).mpr hkeys)
  have hroot := (NodeTable.root?_eq_none_iff htable (hordered ms rfl)).mpr hnone
  rw [load, draft_of_no_tag hempty htype, htable]
  dsimp only
  rw [hroot]
  rfl

theorem load_of_tag {tag : String} (htag : json.tag? = some tag) :
    ∃ t, load json = .ok t ∧ ReadsFrom json t := by
  refine ⟨(Draft.inPlace json).toTree, ?_, .nested (by rw [htag]; rfl) rfl
    (Draft.rootFrom_inPlace htag)⟩
  exact (load_eq_ok_iff _ _).mpr ⟨_, drafts_of_tag htag, rfl⟩

theorem load_of_root? {ms : Json.Members} {table : NodeTable} {id : ℕ} (hms : ms ≠ [])
    (htype : (Json.object ms).get? "type" = none) (htable : NodeTable.ofMembers? ms = some table)
    (hordered : ms.Ordered) (hid : table.root? = some id) :
    ∃ t, load (.object ms) = .ok t ∧ ReadsFrom (.object ms) t := by
  obtain ⟨value, hbegins⟩ := NodeTable.begins_of_root? htable hordered hid
  obtain ⟨tag, htag⟩ : ∃ tag, value.tag? = some tag := by
    rcases hbegins.2 with ⟨htag, -⟩ | ⟨htag, -⟩
    · exact ⟨_, htag⟩
    · exact ⟨_, htag⟩
  refine ⟨(table.draftFrom id).toTree, ?_, .flat rfl htype htable hbegins rfl ?_⟩
  · rw [load, draft_of_no_tag hms htype, htable]
    dsimp only
    rw [hid]
    rfl
  · cases value with
    | object members =>
        have hmem := (NodeTable.mem_iff_enters htable hordered id _).mpr ⟨_, hbegins.1, rfl⟩
        obtain ⟨children, hdraft, hlabels⟩ := NodeTable.draftFrom_of_enters htable hmem htag
        rw [hdraft]
        exact Draft.rootFrom_toTree htag hlabels
    | null | bool _ | number _ | string _ | array _ => cases htag

/-- Whatever is neither misshapen nor without a root loads. -/
theorem load_of_sound (hordered : json.Ordered) (hshape : ¬ Misshapen json)
    (hroot : ¬ Rootless json) : ∃ t, load json = .ok t ∧ ReadsFrom json t := by
  obtain ⟨ms, rfl⟩ : ∃ ms, json = .object ms := by
    by_contra hother
    exact hshape (.inl fun ms hms => hother ⟨ms, hms⟩)
  rcases Option.eq_none_or_eq_some ((Json.object ms).get? "type") with htype | ⟨value, htype⟩
  · have hempty : ms ≠ [] := fun hempty => hshape (.inr (.inr ⟨ms, rfl, htype, .inl hempty⟩))
    have hkeys : ∀ m ∈ ms, ∃ id, Decimal.Denotes m.1.toList id := by
      by_contra hkeys
      push Not at hkeys
      exact hshape (.inr (.inr ⟨ms, rfl, htype, .inr hkeys⟩))
    obtain ⟨table, htable⟩ :=
      Option.isSome_iff_exists.mp ((isSome_ofMembers?_iff_denotes ms).mpr hkeys)
    have hms := hordered ms rfl
    obtain ⟨id, hid⟩ : ∃ id, table.root? = some id := by
      rw [← Option.ne_none_iff_exists']
      intro hnone
      have := (NodeTable.root?_eq_none_iff htable hms).mp hnone
      exact hroot ⟨ms, rfl, hempty, htype, hkeys, this⟩
    exact load_of_root? hempty htype htable hms hid
  · obtain ⟨tag, htag⟩ : ∃ tag, (Json.object ms).tag? = some tag := by
      rw [← Option.ne_none_iff_exists']
      intro hnone
      rw [Json.tag?, htype] at hnone
      exact hshape (.inr (.inl ⟨value, htype, hnone⟩))
    exact load_of_tag htag

/-- Only a document as a whole can fail to load.  It is no node if it is no object, if its tag is no
string, or if it has no tag and no members or a key that is no numeral.  It has no root if it is a
table in which neither a file nor a program is entered for an id; of the keys for one id the last in
their order counts.  In every other case it loads, whatever stands below the root, and the root is
the document itself, or the file with the lowest id, or, without a file, the program with the lowest
id.  The members of a document are in order, as they are whenever it was read from a text
(`Json.ordered_of_parse`). -/
theorem load_outcomes (json : Json) (hordered : json.Ordered) :
    (load json = .error .notANode ↔ Misshapen json) ∧
    (load json = .error .missingRoot ↔ Rootless json) ∧
    (¬ Misshapen json → ¬ Rootless json → ∃ t, load json = .ok t ∧ ReadsFrom json t) := by
  have hsound := load_of_sound hordered
  refine ⟨⟨fun h => ?_, load_of_misshapen⟩, ⟨fun h => ?_, load_of_rootless hordered⟩, hsound⟩
  · by_contra hshape
    by_cases hroot : Rootless json
    · cases (load_of_rootless hordered hroot).symm.trans h
    · obtain ⟨t, ht, -⟩ := hsound hshape hroot
      cases ht.symm.trans h
  · by_contra hroot
    by_cases hshape : Misshapen json
    · cases (load_of_misshapen hshape).symm.trans h
    · obtain ⟨t, ht, -⟩ := hsound hshape hroot
      cases ht.symm.trans h

/-- A table with two spellings of one id.  The file gives way to the name, and of the programs the
one with the lower id is the root; what is in its body is no node. -/
def spellings : Json := .object [
  ("+7", .object [("type", .string "File")]),
  ("007", .object [("type", .string "Identifier"), ("name", .string "x")]),
  ("11", .object [("type", .string "Program")]),
  ("2", .object [("type", .string "Program"), ("body", .array [.null, .number (.natural 2),
    .object [("type", .bool true)]])])]

theorem load_outcomes_spellings : spellings.Ordered ∧ ¬ Misshapen spellings ∧
    ¬ Rootless spellings ∧ ∃ t, load spellings = .ok t ∧ t.size = 1 ∧ ReadsFrom spellings t := by
  have hordered : spellings.Ordered := Json.ordered_object (by decide +kernel)
  obtain ⟨hshape, hroot, hloads⟩ := load_outcomes spellings hordered
  obtain ⟨t, ht, hsize⟩ : ∃ t, load spellings = .ok t ∧ t.size = 1 := ⟨_, rfl, rfl⟩
  rw [ht] at hshape hroot
  have hsound : ¬ Misshapen spellings ∧ ¬ Rootless spellings := by
    simpa using And.intro hshape hroot
  obtain ⟨t', ht', hreads⟩ := hloads hsound.1 hsound.2
  obtain rfl := Except.ok.inj (ht.symm.trans ht')
  exact ⟨hordered, hsound.1, hsound.2, t, ht, hsize, hreads⟩

end Document

end SyntaxLens

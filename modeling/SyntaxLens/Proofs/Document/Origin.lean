import SyntaxLens.Proofs.Document.Lookup

/-! # Where nodes come from

A path can be followed in a document of either shape without loading it, through the references of a
table (`Document.source?`).  Every node of a tree that was loaded was read from the object that its
path leads to there (`Document.form_eq_read`).

A reference that leads to a node leads to an entry of the table, settled in turn.  So the drafts of a
settled node are again settled drafts of values (`Document.Stems`), one step after the other. -/

namespace SyntaxLens

/-! ### Paths in documents -/

/-- What a segment names in an object: a member that its tag has a place for, or an element of it if
the place is for a list. -/
def Json.member? (json : Json) (s : Segment) : Option Json := do
  let tag ← json.tag?
  let p ← (Place.ofTag tag).find? fun p => p.role.name == s.field
  match p.arity, s.index with
  | .one, none => json.get? s.field
  | .many, some i => (json.elements s.field)[i]?
  | .one, some _ | .many, none => none

namespace Document

section source
variable (json : Json)

/-- The entry of an id: the value of the last key for it.  A document with a type has no entries. -/
def entered? (id : ℕ) : Option Json := do
  let ms ← json.object?
  if (json.get? "type").isSome then none
  else (ms.reverse.find? fun m => Decimal.readNat64? m.1.toList == some id).map Prod.snd

/-- What a value stands for in the place of a node: an object for itself, a number for the entry of
this id. -/
def named? : Json → Option Json
  | .object ms => some (.object ms)
  | .number (.natural id) => entered? json id
  | .number _ | .null | .bool _ | .string _ | .array _ => none

/-- The steps of a path from a value on. -/
def along? (value : Json) : Path → Option Json
  | [] => some value
  | s :: rest => ((value.member? s).bind (named? json)).bind fun child => along? child rest

/-- The value that the root is read from: the document itself, or the entry to begin with. -/
def start? : Option Json := do
  let ms ← json.object?
  if (json.get? "type").isSome then some json
  else ((NodeTable.ofMembers? ms).bind NodeTable.root?).bind (entered? json)

/-- The value that a path leads to. -/
def source? (p : Path) : Option Json := (start? json).bind fun value => along? json value p

end source

/-! ### Settled drafts -/

open Draft (Taken read)

/-- A way to follow references. -/
abbrev Follow := ℕ → Taken → Draft × Taken

/-- The second draft is the first with its references followed. -/
def Settled (follow : Follow) (d d' : Draft) : Prop := ∃ taken, (d.settle follow taken).1 = d'

/-- The draft is that of an object with a tag, with its references followed in one of these ways. -/
def Stems (ways : Follow → Prop) (value : Json) (d : Draft) : Prop :=
  ∃ ms tag follow, value = .object ms ∧ value.tag? = some tag ∧ ways follow ∧
    Settled follow (read value).child d

/-- A reference that leads to a node leads to an entry of the document. -/
def Finds (json : Json) (ways : Follow → Prop) : Prop :=
  ∀ follow, ways follow → ∀ id taken d, (follow id taken).1.node? = some d →
    ∃ value, entered? json id = some value ∧ Stems ways value d

section stems
variable {json : Json} {ways : Follow → Prop}

theorem settleAll_forall₂ (follow : Follow) (ds : List (Role × Draft)) : ∀ taken,
    List.Forall₂ (fun e e' => e.1 = e'.1 ∧ Settled follow e.2 e'.2) ds
      (Draft.settleAll follow ds taken).1 := by
  induction ds with
  | nil => exact fun _ => .nil
  | cons e rest ih => exact fun taken => .cons ⟨rfl, taken, rfl⟩ (ih _)

/-- The draft of an object keeps its form when references are followed. -/
theorem Stems.exists_node {value : Json} {d : Draft} (h : Stems ways value d) :
    ∃ ms tag children, value = .object ms ∧ value.tag? = some tag ∧
      d = .node (Form.read tag ms) children := by
  obtain ⟨ms, tag, follow, rfl, htag, -, taken, rfl⟩ := h
  rw [Draft.child_of_tag htag]
  exact ⟨ms, tag, _, rfl, htag, rfl⟩

/-- An object of which a node is read has a tag. -/
theorem stems_object {follow : Follow} (hfollow : ways follow) {ms : Json.Members} {d c : Draft}
    (hd : Settled follow (read (.object ms)).child d) (hc : d.node? = some c) :
    Stems ways (.object ms) c := by
  obtain ⟨taken, rfl⟩ := hd
  cases htag : (Json.object ms).tag? with
  | none =>
      rw [Draft.child_of_no_tag htag] at hc
      cases hc
  | some tag =>
      refine ⟨ms, tag, follow, rfl, htag, hfollow, taken, ?_⟩
      rw [Draft.child_of_tag htag] at hc ⊢
      exact Option.some.inj hc

/-- What a value stands for, if it gives a node. -/
theorem exists_named (hways : Finds json ways) {follow : Follow} (hfollow : ways follow)
    {child : Json} {d c : Draft} (hd : Settled follow (read child).child d)
    (hc : d.node? = some c) : ∃ value, named? json child = some value ∧ Stems ways value c := by
  cases child with
  | object ms => exact ⟨.object ms, rfl, stems_object hfollow hd hc⟩
  | number n =>
      obtain ⟨taken, rfl⟩ := hd
      cases n with
      | natural id => exact hways follow hfollow id taken c hc
      | negative _ | real _ => cases hc
  | null | bool _ | string _ | array _ =>
      obtain ⟨taken, rfl⟩ := hd
      cases hc

/-- A child in a settled draft is a member of the object or an element of one. -/
theorem exists_member {ms : Json.Members} {tag : String} (htag : (Json.object ms).tag? = some tag)
    {follow : Follow} {taken : Taken} {s : Segment} {below c : Draft}
    (hbelow : (Form.read tag ms).pick (Draft.settleAll follow
      ((Json.object ms).children.map fun e => (e.1, (read e.2).child)) taken).1 s = some below)
    (hc : below.node? = some c) :
    ∃ child, (Json.object ms).member? s = some child ∧ Settled follow (read child).child below := by
  have hpick := (Form.read tag ms).pick_rel (settleAll_forall₂ follow
    ((Json.object ms).children.map fun e => (e.1, (read e.2).child)) taken) s
  rw [hbelow, Form.pick_map _ fun j => (read j).child, Json.pick_children _ htag] at hpick
  rw [Json.member?, htag]
  simp only [Option.bind_eq_bind, Option.bind_some]
  cases hfind : (Place.ofTag tag).find? fun p => p.role.name == s.field with
  | none =>
      rw [hfind] at hpick
      cases hpick
  | some p =>
      have hname : p.role.name = s.field := by simpa using List.find?_some hfind
      rw [hfind] at hpick
      simp only [Option.bind_some, hname] at hpick ⊢
      generalize p.arity = arity at hpick ⊢
      generalize s.index = index at hpick ⊢
      cases arity <;> cases index
      · cases hget : (Json.object ms).get? s.field with
        | none =>
            -- Null stands for a missing member, and gives no node.
            rw [hget] at hpick
            obtain ⟨taken', rfl⟩ := Option.rel_some_some.mp hpick
            cases hc
        | some child =>
            rw [hget] at hpick
            exact ⟨child, rfl, Option.rel_some_some.mp hpick⟩
      · cases hpick
      · cases hpick
      · rename_i i
        cases hitem : ((Json.object ms).elements s.field)[i]? with
        | none =>
            simp only [hitem] at hpick
            cases hpick
        | some child =>
            simp only [hitem] at hpick
            exact ⟨child, hitem, Option.rel_some_some.mp hpick⟩

/-- A step in a settled draft is a step in the document. -/
theorem Stems.step (hways : Finds json ways) {value : Json} {d c : Draft} (h : Stems ways value d)
    {s : Segment} (hs : d.step? s = some c) :
    ∃ child, (value.member? s).bind (named? json) = some child ∧ Stems ways child c := by
  obtain ⟨ms, tag, follow, rfl, htag, hfollow, taken, rfl⟩ := h
  rw [Draft.child_of_tag htag, Draft.settle, Draft.step?] at hs
  obtain ⟨below, hbelow, hc⟩ := Option.bind_eq_some_iff.mp hs
  obtain ⟨child, hchild, hsettled⟩ := exists_member htag hbelow hc
  rw [hchild]
  exact exists_named hways hfollow hsettled hc

/-- A path in a settled draft is a path in the document. -/
theorem Stems.follow (hways : Finds json ways) (p : Path) : ∀ {value : Json} {d c : Draft},
    Stems ways value d → d.follow? p = some c →
      ∃ found, along? json value p = some found ∧ Stems ways found c := by
  induction p with
  | nil =>
      intro value d c h hc
      obtain rfl := Option.some.inj hc
      exact ⟨value, rfl, h⟩
  | cons s rest ih =>
      intro value d c h hc
      obtain ⟨below, hbelow, hc⟩ := Option.bind_eq_some_iff.mp hc
      obtain ⟨child, hchild, hstems⟩ := h.step hways hbelow
      obtain ⟨found, hfound, hc⟩ := ih hstems hc
      exact ⟨found, by rw [along?, hchild]; exact hfound, hc⟩

end stems

/-! ### Entries -/

section table
variable {ms : Json.Members} {table : NodeTable} (htype : (Json.object ms).get? "type" = none)
  (htable : NodeTable.ofMembers? ms = some table)
include htype htable

/-- The entries of the table are read from the entries of the document. -/
theorem exists_entry {id : ℕ} {d : Draft} (hd : table.lookup id = some d) :
    ∃ value, entered? (.object ms) id = some value ∧ d = Draft.ofJson value := by
  have hmem := (table.lookup_eq_some_iff (NodeTable.nodup_of_ofMembers? htable) id d).mp hd
  obtain ⟨before, m, after, rfl, hm, rfl, hafter⟩ :=
    (NodeTable.mem_ofMembers?_iff htable id d).mp hmem
  refine ⟨m.2, ?_, rfl⟩
  have hnone : after.reverse.find? (fun m => Decimal.readNat64? m.1.toList == some id) = none := by
    rw [List.find?_eq_none]
    exact fun m' hm' => by simpa using hafter m' (List.mem_reverse.mp hm')
  simp [entered?, htype, Json.object?, List.find?_append, hnone, hm]

/-- A look-up that gives a node gives that of an entry. -/
theorem finds_table : Finds (.object ms) fun follow => ∃ depth, follow = table.follow depth := by
  rintro _ ⟨depth, rfl⟩ id taken d hd
  unfold NodeTable.follow at hd
  split at hd
  · cases hd
  · rename_i entry hentry
    split at hd
    · cases hd
    · split at hd
      · cases hd
      · rename_i depth
        obtain ⟨value, hvalue, rfl⟩ := exists_entry htype htable hentry
        refine ⟨value, hvalue, ?_⟩
        cases value with
        | object members => exact stems_object ⟨depth, rfl⟩ ⟨id :: taken, rfl⟩ hd
        | null | bool _ | number _ | string _ | array _ => cases hd

end table

/-- The draft of a document is that of the value that the root is read from. -/
theorem Drafts.exists_stems {json : Json} {d : Draft} (h : Drafts json d) :
    ∃ ways value, Finds json ways ∧ start? json = some value ∧ Stems ways value d := by
  obtain ⟨form, children, rfl⟩ := h.exists_node
  cases h with
  | @nested ms value _ _ htype hnode =>
      refine ⟨Eq fun _ taken => (.gap .missing, taken), .object ms, ?_, ?_,
        stems_object rfl ⟨[], hnode⟩ rfl⟩
      · rintro _ rfl id taken d hd
        cases hd
      · simp [start?, Json.object?, Json.get?, htype]
  | @flat ms table r id _ taken htype htable hroot hsettles =>
      have hfinds := finds_table htype htable
      have hnode : (table.follow table.length id []).1.node? = some (.node form children) := by
        rw [show (table.follow table.length id []).1 = .node form children from
          NodeTable.draftFrom_eq hsettles]
        rfl
      obtain ⟨value, hvalue, hstems⟩ := hfinds _ ⟨_, rfl⟩ id [] _ hnode
      refine ⟨_, value, hfinds, ?_, hstems⟩
      simp [start?, Json.object?, Json.get?, htype, htable, hroot, hvalue]

/-- The node at the end of a path was read from the object that the path leads to in the document:
its form is that of the tag and the members there. -/
theorem form_eq_read {json : Json} {t : Tree} (h : load json = .ok t) {p : Path} {id : NodeId}
    (hp : t.resolve p = some id) : ∃ ms tag n, source? json p = some (.object ms) ∧
      (Json.object ms).tag? = some tag ∧ t.node? id = some n ∧ n.form = Form.read tag ms := by
  obtain ⟨d, hd, rfl⟩ := (load_eq_ok_iff json t).mp h
  obtain ⟨ways, value, hfinds, hvalue, hstems⟩ := hd.exists_stems
  obtain ⟨form, children, rfl⟩ := hd.exists_node
  have hresolve := Draft.resolve_toTree form children p
  rw [hp] at hresolve
  cases hfollow : (Draft.node form children).follow? p with
  | none =>
      rw [hfollow] at hresolve
      cases hresolve
  | some c =>
      rw [hfollow] at hresolve
      obtain ⟨found, hfound, hc⟩ := hstems.follow hfinds p hfollow
      obtain ⟨ms, tag, below, rfl, htag, rfl⟩ := hc.exists_node
      have hnodes : (Draft.node form children).toTree.nodes =
          ((Draft.node form children).place 0).2.toArray := rfl
      obtain ⟨hnode, -⟩ := (Option.rel_some_some.mp hresolve).node? hnodes
      exact ⟨ms, tag, _, by rw [source?, hvalue]; exact hfound, htag, hnode, rfl⟩

end Document

end SyntaxLens

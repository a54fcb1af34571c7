import SyntaxLens.Proofs.Document.Loading
import SyntaxLens.Proofs.Rendering.Labels

/-! # What a rendering covers

The display of a node leaves some of its children out, and then nothing below them is displayed
either.  `Omits` says which these are, case by case.  A path is shown exactly if none of its steps
leads to a child that is left out (`shows_iff`), so the rendering of a tree that was loaded has
every node once, up to what lies below these children (`nodes_renderRoot`). -/

namespace SyntaxLens

/-- The display of the node leaves out what stands in the role. -/
inductive Omits (t : Tree) (n : Node) : Role → Prop
  /-- The value of a shorthand property, if it is an identifier. -/
  | value {p : PropertyTraits} {name : String} : n.form = .known .objectProperty p →
      p.shorthand = true → t.childForm? n .value = some (.known .identifier name) → Omits t n .value
  /-- The key of a shorthand property, if the value is anything else. -/
  | key {p : PropertyTraits} {value : Form} : n.form = .known .objectProperty p →
      p.shorthand = true → t.childForm? n .value = some value → value.kind? ≠ some .identifier →
      Omits t n .key
  /-- The second name of an import, if it is the same as the first. -/
  | localName {name : String} : n.kind? = some .importSpecifier →
      t.childForm? n .imported = some (.known .identifier name) →
      t.childForm? n .localName = some (.known .identifier name) → Omits t n .localName
  /-- The second name of an export, if it is the same as the first. -/
  | exported {name : String} : n.kind? = some .exportSpecifier →
      t.childForm? n .localName = some (.known .identifier name) →
      t.childForm? n .exported = some (.known .identifier name) → Omits t n .exported
  /-- The specifiers of an export that has a declaration. -/
  | specifiers {declaration : Form} : n.kind? = some .exportNamedDeclaration →
      t.childForm? n .declaration = some declaration → Omits t n .specifiers
  /-- The source of an export that has a declaration. -/
  | source {declaration : Form} : n.kind? = some .exportNamedDeclaration →
      t.childForm? n .declaration = some declaration → Omits t n .source

/-! ### The roles that are left out -/

section omits
variable {t : Tree} {n : Node} {r : Role}

namespace Form

theorem identifierName?_eq_some_iff {f : Form} {name : String} :
    f.identifierName? = some name ↔ f = .known .identifier name := by
  constructor
  · intro h
    unfold identifierName? at h
    split at h
    · exact congrArg (Form.known .identifier) (Option.some.inj h)
    · cases h
  · rintro rfl
    rfl

theorem isSome_identifierName?_iff {f : Form} :
    f.identifierName?.isSome ↔ f.kind? = some .identifier := by
  constructor
  · intro h
    obtain ⟨name, hname⟩ := Option.isSome_iff_exists.mp h
    rw [identifierName?_eq_some_iff.mp hname]
    rfl
  · intro h
    cases f with
    | known kind traits =>
        obtain rfl := Option.some.inj h
        rfl
    | unknown _ => cases h

end Form

namespace Rendering

theorem nameOf?_eq_some_iff {name : String} :
    nameOf? t n r = some name ↔ t.childForm? n r = some (.known .identifier name) := by
  simp only [nameOf?, Option.bind_eq_some_iff, Form.identifierName?_eq_some_iff, exists_eq_right]

theorem isIdentifier_iff :
    isIdentifier t n r = true ↔ ∃ name, t.childForm? n r = some (.known .identifier name) :=
  Option.isSome_iff_exists.trans (exists_congr fun _ => nameOf?_eq_some_iff)

theorem sameName_iff {second : Role} : sameName t n r second = true ↔
    ∃ name, t.childForm? n r = some (.known .identifier name) ∧
      t.childForm? n second = some (.known .identifier name) := by
  rw [sameName, Bool.and_eq_true, isIdentifier_iff, beq_iff_eq]
  constructor
  · rintro ⟨⟨name, hname⟩, heq⟩
    have hsecond := heq ▸ nameOf?_eq_some_iff.mpr hname
    exact ⟨name, hname, nameOf?_eq_some_iff.mp hsecond⟩
  · rintro ⟨name, hfirst, hsecond⟩
    have heq := (nameOf?_eq_some_iff.mpr hfirst).trans (nameOf?_eq_some_iff.mpr hsecond).symm
    exact ⟨⟨name, hfirst⟩, heq⟩

theorem omits_of_mem_omitted (h : r ∈ omitted t n) : Omits t n r := by
  unfold omitted at h
  split at h
  · rename_i p hform
    split at h
    · cases h
    · rename_i hshorthand
      simp only [Bool.not_eq_true', Bool.not_eq_false] at hshorthand
      split at h
      · rename_i hvalue
        obtain ⟨name, hname⟩ := isIdentifier_iff.mp hvalue
        exact List.mem_singleton.mp h ▸ .value hform hshorthand hname
      · rename_i hvalue
        split at h
        · rename_i hpresent
          obtain ⟨value, hchild⟩ := Option.isSome_iff_exists.mp hpresent
          refine List.mem_singleton.mp h ▸ .key hform hshorthand hchild fun hkind => hvalue ?_
          obtain ⟨name, hname⟩ :=
            Option.isSome_iff_exists.mp (Form.isSome_identifierName?_iff.mpr hkind)
          exact isIdentifier_iff.mpr
            ⟨name, by rw [hchild, Form.identifierName?_eq_some_iff.mp hname]⟩
        · cases h
  · rename_i hform
    split at h
    · rename_i hsame
      obtain ⟨name, hfirst, hsecond⟩ := sameName_iff.mp hsame
      exact List.mem_singleton.mp h ▸ .localName (by rw [Node.kind?, hform]; rfl) hfirst hsecond
    · cases h
  · rename_i hform
    split at h
    · rename_i hsame
      obtain ⟨name, hfirst, hsecond⟩ := sameName_iff.mp hsame
      exact List.mem_singleton.mp h ▸ .exported (by rw [Node.kind?, hform]; rfl) hfirst hsecond
    · cases h
  · rename_i hform
    split at h
    · rename_i hpresent
      obtain ⟨declaration, hchild⟩ := Option.isSome_iff_exists.mp hpresent
      have hkind : n.kind? = some .exportNamedDeclaration := by rw [Node.kind?, hform]; rfl
      rcases List.mem_cons.mp h with rfl | h
      · exact .specifiers hkind hchild
      · exact List.mem_singleton.mp h ▸ .source hkind hchild
    · cases h
  · cases h

theorem exists_traits_of_kind? {kind : Kind} (h : n.kind? = some kind) :
    ∃ traits, n.form = .known kind traits := by
  unfold Node.kind? at h
  cases hform : n.form with
  | known k traits =>
      rw [hform] at h
      obtain rfl := Option.some.inj h
      exact ⟨traits, rfl⟩
  | unknown tag => rw [hform] at h; cases h

theorem mem_omitted_of_omits (h : Omits t n r) : r ∈ omitted t n := by
  cases h with
  | value hform hshorthand hchild =>
      have hvalue := isIdentifier_iff.mpr ⟨_, hchild⟩
      simp [omitted, hform, hshorthand, hvalue]
  | key hform hshorthand hchild hkind =>
      have hvalue : isIdentifier t n .value = false := by
        rw [← Bool.not_eq_true, isIdentifier_iff]
        rintro ⟨name, hname⟩
        obtain rfl := Option.some.inj (hchild.symm.trans hname)
        exact hkind rfl
      have hpresent : hasChild t n .value = true := by rw [hasChild, hchild]; rfl
      simp [omitted, hform, hshorthand, hvalue, hpresent]
  | localName hkind hfirst hsecond =>
      obtain ⟨_, hform⟩ := exists_traits_of_kind? hkind
      simp [omitted, hform, sameName_iff.mpr ⟨_, hfirst, hsecond⟩]
  | exported hkind hfirst hsecond =>
      obtain ⟨_, hform⟩ := exists_traits_of_kind? hkind
      simp [omitted, hform, sameName_iff.mpr ⟨_, hfirst, hsecond⟩]
  | specifiers hkind hchild | source hkind hchild =>
      obtain ⟨_, hform⟩ := exists_traits_of_kind? hkind
      have hpresent : hasChild t n .declaration = true := by rw [hasChild, hchild]; rfl
      simp [omitted, hform, hpresent]

theorem mem_omitted_iff : r ∈ omitted t n ↔ Omits t n r :=
  ⟨omits_of_mem_omitted, mem_omitted_of_omits⟩

end Rendering

end omits

namespace Tree

/-- The display of a node leaves out the child in a slot. -/
def LeavesOut (t : Tree) (owner : NodeId) (s : Segment) : Prop :=
  ∃ n r, t.node? owner = some n ∧ Omits t n r ∧ s.field = r.name

/-- The child is left out of the display of its owner. -/
def LeftOut (t : Tree) (c : NodeId) : Prop :=
  ∃ owner s, t.step? owner s = some c ∧ t.LeavesOut owner s

/-- A step of the path leads to a child that is left out. -/
def Hides (t : Tree) (id : NodeId) (p : Path) : Prop :=
  ∃ above s below owner, p = above ++ s :: below ∧ t.follow? id above = some owner ∧
    t.LeavesOut owner s

/-! ### Paths that are shown -/

section hides
variable {t : Tree} {id c : NodeId} {s : Segment} {p : Path}

theorem not_hides_nil : ¬ t.Hides id [] := by
  rintro ⟨above, s, below, owner, hp, -⟩
  simp at hp

theorem hides_cons_iff (hs : t.step? id s = some c) :
    t.Hides id (s :: p) ↔ t.LeavesOut id s ∨ t.Hides c p := by
  constructor
  · rintro ⟨above, s', below, owner, hp, habove, hout⟩
    cases above with
    | nil =>
        obtain ⟨rfl, -⟩ := List.cons.inj hp
        obtain rfl := Option.some.inj habove
        exact .inl hout
    | cons s'' above =>
        obtain ⟨rfl, rfl⟩ := List.cons.inj hp
        rw [t.follow?_cons, hs] at habove
        exact .inr ⟨above, s', below, owner, rfl, habove, hout⟩
  · rintro (hout | ⟨above, s', below, owner, rfl, habove, hout⟩)
    · exact ⟨[], s, p, id, rfl, rfl, hout⟩
    · exact ⟨s :: above, s', below, owner, rfl, by rw [t.follow?_cons, hs]; exact habove, hout⟩

theorem mem_drawn_iff_step? {n : Node} (hn : t.node? id = some n) :
    (s, c) ∈ Rendering.drawn t n ↔ t.step? id s = some c ∧ ¬ t.LeavesOut id s := by
  have hout : t.LeavesOut id s ↔ ∃ r ∈ Rendering.omitted t n, r.name = s.field := by
    constructor
    · rintro ⟨m, r, hm, homits, hname⟩
      obtain rfl := Option.some.inj (hn.symm.trans hm)
      exact ⟨r, Rendering.mem_omitted_iff.mpr homits, hname.symm⟩
    · rintro ⟨r, hr, hname⟩
      exact ⟨n, r, hn, Rendering.mem_omitted_iff.mp hr, hname.symm⟩
  have hstep : t.step? id s = some c ↔ n.at? s = some c ∧ t.has c := by
    rw [t.step?_eq_some_iff]
    constructor
    · rintro ⟨⟨m, hm, hat⟩, hhas⟩
      obtain rfl := Option.some.inj (hn.symm.trans hm)
      exact ⟨hat, hhas⟩
    · rintro ⟨hat, hhas⟩
      exact ⟨⟨n, hn, hat⟩, hhas⟩
  rw [Rendering.mem_drawn_iff, hstep, hout, and_assoc]
  simp only [not_exists, not_and, ne_eq]

/-- A path is shown exactly if no step of it leads to a child that is left out. -/
theorem shows_iff {d : NodeId} (hid : t.has id) :
    Rendering.Shows t id p d ↔ t.follow? id p = some d ∧ ¬ t.Hides id p := by
  induction p generalizing id with
  | nil =>
      constructor
      · intro h
        exact ⟨h.follow?, not_hides_nil⟩
      · rintro ⟨h, -⟩
        exact Option.some.inj h ▸ .here hid
  | cons s p ih =>
      constructor
      · intro h
        refine ⟨h.follow?, ?_⟩
        cases h with
        | down hn hc hrest =>
            obtain ⟨hs, hout⟩ := (mem_drawn_iff_step? hn).mp hc
            rw [hides_cons_iff hs, not_or]
            exact ⟨hout, ((ih (t.has_of_step? hs).2).mp hrest).2⟩
      · rintro ⟨h, hhides⟩
        rw [t.follow?_cons] at h
        obtain ⟨b, hs, h⟩ := Option.bind_eq_some_iff.mp h
        rw [hides_cons_iff hs, not_or] at hhides
        obtain ⟨n, hn⟩ := t.exists_node? hid
        exact .down hn ((mem_drawn_iff_step? hn).mpr ⟨hs, hhides.1⟩)
          ((ih (t.has_of_step? hs).2).mpr ⟨h, hhides.2⟩)

end hides

/-! ### Rendering a strict tree -/

namespace Strict

variable {t : Tree} (h : t.Strict) {focus : Option Path} {f : Fragment}
include h

theorem exists_renderRoot (focus : Option Path) : ∃ f, t.renderRoot focus = some f :=
  Option.isSome_iff_exists.mp (isSome_render_iff.mpr h.has_root)

theorem exists_resolve {id : NodeId} (hid : t.has id) : ∃ p, t.resolve p = some id :=
  (t.reached_tfae id).out 0 1 |>.mp (h.mem_order hid)

/-- The paths of the composites are those that resolve and are not hidden. -/
theorem mem_paths_renderRoot_iff (hf : t.renderRoot focus = some f) (p : Path) (id : NodeId) :
    (∃ m ∈ f.nodes, m.path = p ∧ m.id = id) ↔ t.resolve p = some id ∧ ¬ t.Hides t.root p := by
  have hroot := t.pathOf?_root h.has_root
  have hperm := marks_renderAt ((render_of_pathOf? hroot focus).symm.trans hf)
  rw [t.resolve_eq_follow? h.has_root, ← shows_iff h.has_root]
  constructor
  · rintro ⟨m, hm, rfl, rfl⟩
    obtain ⟨p, hpath, hshows, -⟩ :=
      Rendering.exists_shows_of_mem_marksAt (hperm.mem_iff.mp hm)
    rw [hpath]
    exact hshows
  · intro hshows
    have hlen := (h.acyclicFrom t.root).length_lt h.has_root hshows.follow?
    obtain ⟨m, hm, hpath, hid⟩ := Rendering.mem_marksAt_of_shows hshows [] hlen
    exact ⟨m, hperm.mem_iff.mpr hm, hpath, hid⟩

/-- In a strict tree a node has one path, so no two composites stand for one node. -/
theorem ids_renderRoot_nodup (hf : t.renderRoot focus = some f) : (f.nodes.map Mark.id).Nodup := by
  have hpaths := paths_render_nodup hf
  have hresolve : ∀ m ∈ f.nodes, t.resolve m.path = some m.id :=
    fun m hm => (mark_of_pathOf? (t.pathOf?_root h.has_root) hf hm).2.1
  refine List.Nodup.map_on (fun m hm m' hm' hid => ?_) (List.Nodup.of_map _ hpaths)
  have hpath := h.resolve_unique (hresolve m hm) (hid ▸ hresolve m' hm')
  exact List.inj_on_of_nodup_map hpaths hm hm' hpath

/-- A path is hidden exactly if it leads below a child that is left out. -/
theorem hides_iff {p : Path} {id : NodeId} (hp : t.resolve p = some id) :
    t.Hides t.root p ↔ ∃ c q, t.LeftOut c ∧ t.follow? c q = some id := by
  constructor
  · rintro ⟨above, s, below, owner, rfl, habove, hout⟩
    rw [t.resolve_eq_follow? h.has_root, t.follow?_append, habove] at hp
    obtain ⟨c, hs, hbelow⟩ :=
      Option.bind_eq_some_iff.mp ((t.follow?_cons owner s below).symm.trans hp)
    exact ⟨c, below, ⟨owner, s, hs, hout⟩, hbelow⟩
  · rintro ⟨c, q, ⟨owner, s, hs, hout⟩, hq⟩
    obtain ⟨above, habove⟩ := h.exists_resolve (t.has_of_step? hs).1
    rw [t.resolve_eq_follow? h.has_root] at habove
    have hlong : t.resolve (above ++ s :: q) = some id := by
      rw [t.resolve_eq_follow? h.has_root, t.follow?_append, habove]
      exact (t.follow?_cons owner s q).trans (by rw [hs]; exact hq)
    exact ⟨above, s, q, owner, h.resolve_unique hp hlong, habove, hout⟩

end Strict

/-- The rendering of a tree that was loaded has a composite for every node of the tree and no two
for one node, except for what lies below the children that are left out; it has none for that. -/
theorem nodes_renderRoot (json : Json) (t : Tree) (hload : Document.load json = .ok t)
    (focus : Option Path) :
    ∃ f, t.renderRoot focus = some f ∧ (f.nodes.map Mark.id).Nodup ∧
      ∀ id, id ∈ f.nodes.map Mark.id ↔
        t.has id ∧ ¬ ∃ c q, t.LeftOut c ∧ t.follow? c q = some id := by
  obtain ⟨d, hd, rfl⟩ := (Document.load_eq_ok_iff json t).mp hload
  have h := hd.strict
  obtain ⟨f, hf⟩ := h.exists_renderRoot focus
  refine ⟨f, hf, h.ids_renderRoot_nodup hf, fun id => ?_⟩
  constructor
  · intro hid
    obtain ⟨m, hm, rfl⟩ := List.mem_map.mp hid
    obtain ⟨hresolve, hhides⟩ := (h.mem_paths_renderRoot_iff hf m.path m.id).mp ⟨m, hm, rfl, rfl⟩
    exact ⟨d.toTree.has_of_mem_order (d.toTree.mem_order_of_resolve hresolve),
      (h.hides_iff hresolve).not.mp hhides⟩
  · rintro ⟨hhas, hbelow⟩
    obtain ⟨p, hp⟩ := h.exists_resolve hhas
    obtain ⟨m, hm, -, rfl⟩ :=
      (h.mem_paths_renderRoot_iff hf p id).mpr ⟨hp, (h.hides_iff hp).not.mpr hbelow⟩
    exact List.mem_map_of_mem hm

/-- The object `{a, b = c}`: of the first property the value is left out, of the second the key. -/
def abridged : Json := .object [("type", .string "ObjectPattern"), ("properties", .array [
  .object [("type", .string "ObjectProperty"), ("shorthand", .bool true),
    ("key", .object [("type", .string "Identifier"), ("name", .string "a")]),
    ("value", .object [("type", .string "Identifier"), ("name", .string "a")])],
  .object [("type", .string "ObjectProperty"), ("shorthand", .bool true),
    ("key", .object [("type", .string "Identifier"), ("name", .string "b")]),
    ("value", .object [("type", .string "AssignmentPattern"),
      ("left", .object [("type", .string "Identifier"), ("name", .string "b")]),
      ("right", .object [("type", .string "Identifier"), ("name", .string "c")])])]])]

theorem nodes_renderRoot_abridged : ∃ t f, Document.load abridged = .ok t ∧ t.size = 9 ∧
    t.renderRoot none = some f ∧ (f.nodes.map Mark.id).Nodup ∧
    3 ∉ f.nodes.map Mark.id ∧ 5 ∉ f.nodes.map Mark.id := by
  obtain ⟨f, hf, hnodup, hids⟩ := nodes_renderRoot abridged _ rfl none
  refine ⟨_, f, rfl, by decide, hf, hnodup, fun hmem => ?_, fun hmem => ?_⟩
  · exact ((hids 3).mp hmem).2
      ⟨3, [], ⟨1, .single .value, by decide, _, .value, rfl, .value rfl rfl rfl, rfl⟩, rfl⟩
  · exact ((hids 5).mp hmem).2
      ⟨5, [], ⟨4, .single .key, by decide, _, .key, rfl, .key rfl rfl rfl (by decide), rfl⟩, rfl⟩

end Tree

end SyntaxLens

import SyntaxLens.Proofs.Focus.Moves
import SyntaxLens.Proofs.Rendering.Coverage

/-! # Whether the focus is visible

Moves follow the grammar, rendering follows its rules, and the two disagree on shorthand properties:
a step down from such a property leads to its key, but a value that is no identifier is displayed in
place of the key.  `Eclipsed` says when this happens.

Moves from the root lead to no other child that is left out (`Traced.move`, `traced_moves`), so the
rendering of a tree that was loaded marks the path that moves have reached, and nothing else, as
long as the path does not pass such a child; if it does, nothing is in focus (`focused_moves`). -/

namespace SyntaxLens

/-- A shorthand property does not display the child that a step down from it leads to: the key, if
the value is there and is no identifier, or the value where there is no key, if it is one. -/
inductive Eclipsed (t : Tree) (n : Node) : Role → Prop
  | key {p : PropertyTraits} {value : Form} : n.form = .known .objectProperty p →
      p.shorthand = true → t.childForm? n .value = some value → value.kind? ≠ some .identifier →
      Eclipsed t n .key
  | value {p : PropertyTraits} {name : String} : n.form = .known .objectProperty p →
      p.shorthand = true → n.child? .key = none →
      t.childForm? n .value = some (.known .identifier name) → Eclipsed t n .value

theorem Eclipsed.omits {t : Tree} {n : Node} {r : Role} (h : Eclipsed t n r) : Omits t n r := by
  cases h with
  | key hform hshorthand hvalue hkind => exact .key hform hshorthand hvalue hkind
  | value hform hshorthand _ hvalue => exact .value hform hshorthand hvalue

namespace Tree

/-! ### Paths that moves reach -/

/-- The child in a slot is eclipsed. -/
def Eclipses (t : Tree) (owner : NodeId) (s : Segment) : Prop :=
  ∃ n r, t.node? owner = some n ∧ Eclipsed t n r ∧ s.field = r.name

/-- The path passes a child that is eclipsed. -/
def PassesEclipsed (t : Tree) (p : Path) : Prop :=
  ∃ above s below owner, p = above ++ s :: below ∧ t.resolve above = some owner ∧
    t.Eclipses owner s

/-- Only keys and values are eclipsed. -/
theorem PassesEclipsed.exists_mem {t : Tree} {p : Path} (h : t.PassesEclipsed p) :
    ∃ s ∈ p, s.field = Role.key.name ∨ s.field = Role.value.name := by
  obtain ⟨above, s, below, owner, rfl, -, n, r, -, heclipsed, hname⟩ := h
  refine ⟨s, by simp, ?_⟩
  cases heclipsed with
  | key => exact .inl hname
  | value => exact .inr hname

/-- The path resolves, and what is left out along it is eclipsed. -/
structure Traced (t : Tree) (p : Path) : Prop where
  resolves : (t.resolve p).isSome
  eclipses : ∀ above s below owner, p = above ++ s :: below → t.resolve above = some owner →
    t.LeavesOut owner s → t.Eclipses owner s

section traced
variable {t : Tree} {p q : Path} {owner c : NodeId} {s : Segment}

theorem Eclipses.leavesOut (h : t.Eclipses owner s) : t.LeavesOut owner s := by
  obtain ⟨n, r, hn, heclipsed, hname⟩ := h
  exact ⟨n, r, hn, heclipsed.omits, hname⟩

theorem traced_nil (hroot : t.has t.root) : t.Traced [] where
  resolves := by rw [t.resolve_nil, if_pos hroot]; rfl
  eclipses above s below owner hp := by simp at hp

theorem Traced.left (h : t.Traced (p ++ q)) : t.Traced p where
  resolves := by
    obtain ⟨id, hid⟩ := Option.isSome_iff_exists.mp h.resolves
    have hroot := has_root_of_resolve hid
    rw [t.resolve_eq_follow? hroot] at hid ⊢
    rw [t.follow?_append] at hid
    obtain ⟨b, hb, -⟩ := Option.bind_eq_some_iff.mp hid
    rw [hb]
    rfl
  eclipses above s below owner hp :=
    h.eclipses above s (below ++ q) owner (by rw [hp, List.append_assoc, List.cons_append])

theorem Traced.snoc (h : t.Traced p) (howner : t.resolve p = some owner)
    (hs : t.step? owner s = some c) (hout : t.LeavesOut owner s → t.Eclipses owner s) :
    t.Traced (p ++ [s]) where
  resolves := by
    rw [t.resolve_snoc, howner]
    exact Option.isSome_iff_exists.mpr ⟨c, hs⟩
  eclipses above s' below owner' hp habove := by
    cases below using List.reverseRecOn with
    | nil =>
        obtain ⟨rfl, heq⟩ := List.append_inj' hp rfl
        obtain rfl := List.singleton_inj.mp heq
        obtain rfl := Option.some.inj (howner.symm.trans habove)
        exact hout
    | append_singleton below last =>
        rw [← List.cons_append, ← List.append_assoc] at hp
        exact h.eclipses above s' below owner' (List.append_inj' hp rfl).1 habove

/-- A step down leads to a child that is displayed, or to one that is eclipsed. -/
theorem eclipses_of_descent? (hs : t.descent? owner = some s) (hout : t.LeavesOut owner s) :
    t.Eclipses owner s := by
  obtain ⟨n, r, hn, homits, hname⟩ := hout
  obtain ⟨-, role, hrole, hfield⟩ := descent?_cases hn hs
  refine ⟨n, r, hn, ?_, hname⟩
  -- The primary child is there wherever another child is left out for it.
  have hpresent : ∀ f, t.childForm? n role = some f → s.field = role.name := by
    intro f hf
    refine hfield.resolve_right fun hnone => ?_
    rw [childForm?, hnone] at hf
    cases hf
  cases homits with
  | value hform hshorthand hvalue =>
      rw [hform] at hrole
      obtain rfl := Option.some.inj hrole
      rcases hfield with hfield | hnone
      · exact absurd (Role.name_injective (hname.symm.trans hfield)) (by decide)
      · exact .value hform hshorthand hnone hvalue
  | key hform hshorthand hvalue hkind => exact .key hform hshorthand hvalue hkind
  | localName hkind hfirst _ =>
      obtain ⟨_, hform⟩ := Rendering.exists_traits_of_kind? hkind
      rw [hform] at hrole
      obtain rfl := Option.some.inj hrole
      exact absurd (Role.name_injective (hname.symm.trans (hpresent _ hfirst))) (by decide)
  | exported hkind hfirst _ | specifiers hkind hfirst | source hkind hfirst =>
      obtain ⟨_, hform⟩ := Rendering.exists_traits_of_kind? hkind
      rw [hform] at hrole
      obtain rfl := Option.some.inj hrole
      exact absurd (Role.name_injective (hname.symm.trans (hpresent _ hfirst))) (by decide)

theorem Traced.sidestep? (hstrict : t.Strict) (h : t.Traced p) {forward : Bool}
    (hq : t.sidestep? p forward = some q) : t.Traced q := by
  obtain ⟨before, name, i, j, below, owner, n, c, rfl, rfl, howner, hn, hat⟩ := sidestep?_cases hq
  -- The slots of one list are left out together.
  exact h.left.snoc howner (hstrict.closed.step?_of_at? hn hat) fun hout =>
    h.eclipses before ⟨name, some i⟩ below owner rfl howner hout

/-- A move keeps to paths that resolve, and to what is displayed or eclipsed. -/
theorem Traced.move (hstrict : t.Strict) (h : t.Traced p) (d : Direction) :
    t.Traced (t.move p d) := by
  obtain ⟨id, hid⟩ := Option.isSome_iff_exists.mp h.resolves
  unfold Tree.move
  rw [hid]
  cases d with
  | up =>
      obtain ⟨last, hp⟩ := List.dropLast_prefix p
      exact Traced.left (hp.symm ▸ h)
  | down =>
      dsimp only
      cases hs : t.descent? id with
      | none => exact h
      | some s =>
          obtain ⟨n, hn⟩ := t.exists_node? (t.has_of_mem_order (t.mem_order_of_resolve hid))
          obtain ⟨⟨c, hat⟩, -⟩ := descent?_cases hn hs
          exact h.snoc hid (hstrict.closed.step?_of_at? hn hat) (eclipses_of_descent? hs)
  | next =>
      dsimp only
      cases hq : t.sidestep? p true with
      | none => exact h
      | some q => exact h.sidestep? hstrict hq
  | prev =>
      dsimp only
      cases hq : t.sidestep? p false with
      | none => exact h
      | some q => exact h.sidestep? hstrict hq

/-- All paths that moves reach from the root are traced. -/
theorem traced_moves (hstrict : t.Strict) (moves : List Direction) :
    t.Traced (moves.foldl t.move []) := by
  induction moves using List.reverseRecOn with
  | nil => exact traced_nil hstrict.has_root
  | append_singleton moves d ih =>
      rw [List.foldl_append]
      exact ih.move hstrict d

/-- What hides a traced path is eclipsed. -/
theorem Traced.hides_iff (hroot : t.has t.root) (h : t.Traced p) :
    t.Hides t.root p ↔ t.PassesEclipsed p := by
  constructor
  · rintro ⟨above, s, below, owner, hp, habove, hout⟩
    rw [← t.resolve_eq_follow? hroot] at habove
    exact ⟨above, s, below, owner, hp, habove, h.eclipses above s below owner hp habove hout⟩
  · rintro ⟨above, s, below, owner, hp, habove, heclipses⟩
    rw [t.resolve_eq_follow? hroot] at habove
    exact ⟨above, s, below, owner, hp, habove, heclipses.leavesOut⟩

end traced

/-! ### The composite in focus -/

/-- A composite is in focus if it stands at the focus, and no two stand there. -/
theorem Strict.paths_focused {t : Tree} (h : t.Strict) {p : Path} {f : Fragment}
    (hf : t.renderRoot (some p) = some f) :
    (f.nodes.filter Mark.focused).map Mark.path =
      List.replicate ((f.nodes.map Mark.path).count p) p := by
  have hflag : ∀ m ∈ f.nodes, m.focused = (m.path == p) := by
    intro m hm
    have hroot := t.pathOf?_root h.has_root
    rw [(mark_of_pathOf? hroot hf hm).2.2, Bool.eq_iff_iff, beq_iff_eq, beq_iff_eq,
      Option.some.injEq, eq_comm]
  rw [List.filter_congr hflag, ← List.filter_beq, List.filter_map]
  rfl

/-- Moves from the root reach a path that resolves.  With the focus on it, the rendering of a tree
that was loaded has exactly one composite in focus, at this path, except if the path passes the key
of a shorthand property whose value is displayed in its place, or the value of one that has no key:
then nothing is in focus. -/
theorem focused_moves (json : Json) (t : Tree) (hload : Document.load json = .ok t)
    (moves : List Direction) (p : Path) (hp : moves.foldl t.move [] = p) :
    (t.resolve p).isSome ∧ ∃ f, t.renderRoot (some p) = some f ∧
      (¬ t.PassesEclipsed p → (f.nodes.filter Mark.focused).map Mark.path = [p]) ∧
      (t.PassesEclipsed p → f.nodes.filter Mark.focused = []) := by
  obtain ⟨d, hd, rfl⟩ := (Document.load_eq_ok_iff json t).mp hload
  have h := hd.strict
  have htraced : d.toTree.Traced p := hp ▸ traced_moves h moves
  obtain ⟨f, hf⟩ := h.exists_renderRoot (some p)
  obtain ⟨id, hid⟩ := Option.isSome_iff_exists.mp htraced.resolves
  have hmem : p ∈ f.nodes.map Mark.path ↔ ¬ d.toTree.PassesEclipsed p := by
    rw [← htraced.hides_iff h.has_root, List.mem_map]
    constructor
    · rintro ⟨m, hm, hpath⟩
      exact ((h.mem_paths_renderRoot_iff hf p m.id).mp ⟨m, hm, hpath, rfl⟩).2
    · intro hshown
      obtain ⟨m, hm, hpath, -⟩ := (h.mem_paths_renderRoot_iff hf p id).mpr ⟨hid, hshown⟩
      exact ⟨m, hm, hpath⟩
  have hfocused := h.paths_focused hf
  refine ⟨htraced.resolves, f, hf, fun hpasses => ?_, fun hpasses => ?_⟩
  · rw [hfocused, List.count_eq_one_of_mem (paths_render_nodup hf) (hmem.mpr hpasses),
      List.replicate_one]
  · rw [List.count_eq_zero_of_not_mem fun hin => hmem.mp hin hpasses] at hfocused
    exact List.map_eq_nil_iff.mp hfocused

/-- The program `const {a = 1} = b;`. -/
def defaulted : Json := .object [("type", .string "Program"), ("body", .array [
  .object [("type", .string "VariableDeclaration"), ("kind", .string "const"),
    ("declarations", .array [.object [("type", .string "VariableDeclarator"),
      ("id", .object [("type", .string "ObjectPattern"), ("properties", .array [
        .object [("type", .string "ObjectProperty"), ("shorthand", .bool true),
          ("key", .object [("type", .string "Identifier"), ("name", .string "a")]),
          ("value", .object [("type", .string "AssignmentPattern"),
            ("left", .object [("type", .string "Identifier"), ("name", .string "a")]),
            ("right", .object [("type", .string "NumericLiteral"),
              ("value", .number (.natural 1))])])]])]),
      ("init", .object [("type", .string "Identifier"), ("name", .string "b")])]])]])]

theorem focused_moves_defaulted : ∃ t f p, Document.load defaulted = .ok t ∧
    [Direction.down, .down, .down, .next].foldl t.move [] = p ∧ p.length = 3 ∧
    t.renderRoot (some p) = some f ∧ (f.nodes.filter Mark.focused).map Mark.path = [p] := by
  obtain ⟨-, f, hf, hshown, -⟩ := focused_moves defaulted _ rfl [.down, .down, .down, .next]
    [⟨"body", some 0⟩, ⟨"declarations", some 0⟩, ⟨"id", none⟩] (by decide)
  refine ⟨_, f, _, rfl, by decide, rfl, hf, hshown fun hpasses => ?_⟩
  obtain ⟨s, hs, hname⟩ := hpasses.exists_mem
  revert s
  decide

theorem focus_lost_defaulted : ∃ t f, Document.load defaulted = .ok t ∧
    t.renderRoot (some ((List.replicate 5 .down).foldl t.move [])) = some f ∧
    f.nodes.filter Mark.focused = [] :=
  ⟨_, _, rfl, rfl, by decide⟩

end Tree

end SyntaxLens

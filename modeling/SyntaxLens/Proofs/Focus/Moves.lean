import SyntaxLens.Focus.State
import SyntaxLens.Proofs.Document.Loading
import SyntaxLens.Proofs.Document.Table
import SyntaxLens.Proofs.Tree.Cycles

/-! # Moves and the paths that they lead to

A step down leads into the primary role of a node (`descent?_cases`), and a step aside keeps to one
list and replaces one index (`sidestep?_cases`).  Both find filled slots only.  So where the root and
all children lie in the arena (`Closed`), a move from a path that resolves leads to a path that
resolves (`Closed.isSome_resolve_move`), and whatever is done to a focus, it is on a node
(`focus_resolves`). -/

namespace SyntaxLens

/-! ### Where moves lead -/

namespace Field

theorem exists_at?_of_nextPresent? {f : Field} {start i : ℕ} (h : f.nextPresent? start = some i) :
    ∃ c, f.at? (some i) = some c := by
  cases f with
  | one _ => cases h
  | many slots =>
      obtain ⟨k, hk, rfl⟩ := Option.map_eq_some_iff.mp h
      obtain ⟨hlt, hsome, -⟩ := List.findIdx?_eq_some_iff_getElem.mp hk
      obtain ⟨c, hc⟩ := Option.isSome_iff_exists.mp hsome
      rw [List.getElem_drop] at hc
      rw [Nat.add_comm k start]
      exact ⟨c, Option.join_eq_some_iff.mpr (List.getElem?_eq_some_iff.mpr ⟨_, hc⟩)⟩

theorem exists_at?_of_prevPresent? {f : Field} {start i : ℕ} (h : f.prevPresent? start = some i) :
    ∃ c, f.at? (some i) = some c := by
  cases f with
  | one _ => cases h
  | many slots =>
      obtain ⟨k, hk, rfl⟩ := Option.map_eq_some_iff.mp h
      obtain ⟨hlt, hsome, -⟩ := List.findIdx?_eq_some_iff_getElem.mp hk
      obtain ⟨c, hc⟩ := Option.isSome_iff_exists.mp hsome
      rw [List.getElem_reverse, List.getElem_take] at hc
      rw [List.length_reverse]
      exact ⟨c, Option.join_eq_some_iff.mpr (List.getElem?_eq_some_iff.mpr ⟨_, hc⟩)⟩

end Field

namespace Tree

section targets
variable {t : Tree} {id : NodeId} {n : Node} {s : Segment}

/-- A step down leads to a child in the primary role, unless there is none. -/
theorem descent?_cases (hn : t.node? id = some n) (h : t.descent? id = some s) :
    (∃ c, n.at? s = some c) ∧
      ∃ r, n.form.primary = some r ∧ (s.field = r.name ∨ n.child? r = none) := by
  unfold descent? at h
  rw [hn, Option.bind_eq_bind, Option.bind_some] at h
  obtain ⟨r, hr, h⟩ := Option.bind_eq_some_iff.mp h
  obtain ⟨f, hf, h⟩ := Option.bind_eq_some_iff.mp h
  have hnamed : n.fieldNamed? r.name = some f :=
    (n.fieldNamed?_eq_some_iff _ f).mpr ⟨r, mem_of_lookup_eq_some hf, rfl⟩
  cases f with
  | one child =>
      cases child with
      | some c =>
          obtain rfl := Option.some.inj h
          exact ⟨⟨c, by simp [Node.at?, Segment.single, hnamed, Field.at?]⟩, r, hr, .inl rfl⟩
      | none =>
          obtain ⟨⟨s, c⟩, hhead, rfl⟩ := Option.map_eq_some_iff.mp h
          have hmem := List.mem_of_mem_head? hhead
          exact ⟨⟨c, (n.mem_segments_iff s c).mp hmem⟩, r, hr,
            .inr (by simp [Node.child?, hf, Field.at?])⟩
  | many slots =>
      obtain ⟨i, hi, rfl⟩ := Option.map_eq_some_iff.mp h
      obtain ⟨c, hc⟩ := Field.exists_at?_of_nextPresent? hi
      exact ⟨⟨c, by simp [Node.at?, Segment.element, hnamed, hc]⟩, r, hr, .inl rfl⟩

theorem lastIndexed?_eq_some {p before : Path} {name : String} {i : ℕ}
    (h : lastIndexed? p = some (before, name, i)) :
    ∃ below, p = before ++ ⟨name, some i⟩ :: below := by
  induction p generalizing before with
  | nil => cases h
  | cons s p ih =>
      rw [lastIndexed?] at h
      cases hlast : lastIndexed? p with
      | some found =>
          obtain ⟨before', name', i'⟩ := found
          rw [hlast] at h
          obtain ⟨rfl, rfl, rfl⟩ : s :: before' = before ∧ name' = name ∧ i' = i := by simpa using h
          obtain ⟨below, rfl⟩ := ih hlast
          exact ⟨below, rfl⟩
      | none =>
          rw [hlast] at h
          obtain ⟨j, hj, heq⟩ := Option.map_eq_some_iff.mp h
          obtain ⟨rfl, rfl, rfl⟩ : [] = before ∧ s.field = name ∧ j = i := by simpa using heq
          exact ⟨p, by rw [← hj]; rfl⟩

/-- A step aside replaces the index of a segment and drops what comes after it. -/
theorem sidestep?_cases {p q : Path} {forward : Bool} (h : t.sidestep? p forward = some q) :
    ∃ before name i j below owner n c, p = before ++ ⟨name, some i⟩ :: below ∧
      q = before ++ [⟨name, some j⟩] ∧ t.resolve before = some owner ∧
      t.node? owner = some n ∧ n.at? ⟨name, some j⟩ = some c := by
  unfold sidestep? at h
  obtain ⟨⟨before, name, i⟩, hlast, h⟩ := Option.bind_eq_some_iff.mp h
  obtain ⟨owner, howner, h⟩ := Option.bind_eq_some_iff.mp h
  obtain ⟨n, hn, h⟩ := Option.bind_eq_some_iff.mp h
  obtain ⟨f, hf, h⟩ := Option.bind_eq_some_iff.mp h
  obtain ⟨below, hp⟩ := lastIndexed?_eq_some hlast
  have htarget : ∃ j c, f.at? (some j) = some c ∧ before ++ [⟨name, some j⟩] = q := by
    dsimp only at h
    split at h
    · obtain ⟨j, hj, h⟩ := Option.bind_eq_some_iff.mp h
      obtain ⟨c, hc⟩ := Field.exists_at?_of_nextPresent? hj
      exact ⟨j, c, hc, Option.some.inj h⟩
    · split at h
      · cases h
      · obtain ⟨j, hj, h⟩ := Option.bind_eq_some_iff.mp h
        obtain ⟨c, hc⟩ := Field.exists_at?_of_prevPresent? hj
        exact ⟨j, c, hc, Option.some.inj h⟩
  obtain ⟨j, c, hc, hq⟩ := htarget
  exact ⟨before, name, i, j, below, owner, n, c, hp, hq.symm, howner, hn,
    by simp [Node.at?, hf, hc]⟩

end targets

/-! ### Trees whose children lie in the arena -/

/-- The root lies in the arena, and so does whatever stands in a child slot. -/
structure Closed (t : Tree) : Prop where
  has_root : t.has t.root
  has_slots : ∀ c ∈ t.slots, t.has c

theorem Strict.closed {t : Tree} (h : t.Strict) : t.Closed where
  has_root := h.has_root
  has_slots c hc := by
    obtain ⟨owner, howner⟩ := (t.mem_slots_iff c).mp hc
    exact (h.owner_lt owner c howner).2

theorem closed_of_load {json : Json} {t : Tree} (h : Document.load json = .ok t) : t.Closed :=
  (Document.strict_of_load h).closed

theorem closed_of_loadText {text : String} {t : Tree} (h : Document.loadText text = .ok t) :
    t.Closed := by
  obtain ⟨json, hload⟩ := Document.exists_load_of_loadText h
  exact closed_of_load hload

theorem closed_of_loadFile {files : Files} {name : String} {t : Tree}
    (h : Document.loadFile files name = .ok t) : t.Closed := by
  obtain ⟨json, hload⟩ := Document.exists_load_of_loadFile h
  exact closed_of_load hload

theorem resolve_append (t : Tree) (p q : Path) :
    t.resolve (p ++ q) = (t.resolve p).bind fun id => t.follow? id q := by
  unfold resolve
  split
  · exact t.follow?_append p q t.root
  · rfl

theorem isSome_resolve_left {t : Tree} {p q : Path} (h : (t.resolve (p ++ q)).isSome) :
    (t.resolve p).isSome := by
  rw [resolve_append] at h
  exact Option.isSome_of_isSome_bind h

namespace Closed

variable {t : Tree} (h : t.Closed) {p : Path} {owner c : NodeId} {n : Node} {s : Segment}
include h

theorem has_child (hc : c ∈ t.children owner) : t.has c :=
  h.has_slots c ((t.mem_slots_iff c).mpr ⟨owner, hc⟩)

/-- Every filled slot can be stepped into. -/
theorem step?_of_at? (hn : t.node? owner = some n) (hat : n.at? s = some c) :
    t.step? owner s = some c := by
  have hchild : c ∈ t.children owner := (t.mem_children_iff owner c).mpr ⟨n, s, hn, hat⟩
  exact (t.step?_eq_some_iff owner s c).mpr ⟨⟨n, hn, hat⟩, h.has_child hchild⟩

theorem isSome_resolve_snoc (howner : t.resolve p = some owner) (hn : t.node? owner = some n)
    (hat : n.at? s = some c) : (t.resolve (p ++ [s])).isSome := by
  rw [t.resolve_snoc, howner]
  exact Option.isSome_iff_exists.mpr ⟨c, h.step?_of_at? hn hat⟩

theorem isSome_resolve_sidestep? {forward : Bool} {q : Path}
    (hq : t.sidestep? p forward = some q) : (t.resolve q).isSome := by
  obtain ⟨before, name, i, j, below, owner, n, c, rfl, rfl, howner, hn, hat⟩ := sidestep?_cases hq
  exact h.isSome_resolve_snoc howner hn hat

/-- Moves keep to paths that resolve. -/
theorem isSome_resolve_move (hp : (t.resolve p).isSome) (d : Direction) :
    (t.resolve (t.move p d)).isSome := by
  obtain ⟨id, hid⟩ := Option.isSome_iff_exists.mp hp
  unfold Tree.move
  rw [hid]
  cases d with
  | up =>
      obtain ⟨last, hlast⟩ := List.dropLast_prefix p
      exact isSome_resolve_left (hlast.symm ▸ hp)
  | down =>
      dsimp only
      cases hs : t.descent? id with
      | none => exact hp
      | some s =>
          obtain ⟨n, hn⟩ := t.exists_node? (t.has_of_mem_order (t.mem_order_of_resolve hid))
          obtain ⟨⟨c, hat⟩, -⟩ := descent?_cases hn hs
          exact h.isSome_resolve_snoc hid hn hat
  | next =>
      dsimp only
      cases hq : t.sidestep? p true with
      | none => exact hp
      | some q => exact h.isSome_resolve_sidestep? hq
  | prev =>
      dsimp only
      cases hq : t.sidestep? p false with
      | none => exact hp
      | some q => exact h.isSome_resolve_sidestep? hq

end Closed

end Tree

/-! ### Runs of a focus -/

namespace Focus

/-- What can be done to a focus: a move, a path or a node to go to, a new tree. -/
inductive Command where
  | move (d : Direction)
  | path (p : Path)
  | node (id : NodeId)
  | tree (t : Tree)

/-- The focus after a command. -/
def after (f : Focus) : Command → Focus
  | .move d => (f.move d).1
  | .path p => (f.setPath p).1
  | .node id => (f.setNode id).1
  | .tree t => .ofTree t

/-- The tree is closed, and the focus is on a node of it. -/
structure Sound (f : Focus) : Prop where
  closed : f.tree.Closed
  resolves : f.focused?.isSome

theorem sound_ofTree {t : Tree} (h : t.Closed) : (ofTree t).Sound where
  closed := h
  resolves := by
    rw [focused?, ofTree, t.resolve_nil, if_pos h.has_root]
    rfl

namespace Sound

variable {f : Focus} (h : f.Sound)
include h

theorem move (d : Direction) : (f.move d).1.Sound where
  closed := h.closed
  resolves := h.closed.isSome_resolve_move h.resolves d

theorem setPath (p : Path) : (f.setPath p).1.Sound := by
  unfold Focus.setPath
  split
  · rename_i hp
    exact ⟨h.closed, hp⟩
  · exact h

theorem setNode (id : NodeId) : (f.setNode id).1.Sound := by
  unfold Focus.setNode
  split
  · exact h.setPath _
  · exact h

/-- Every command keeps the focus on a node, if the trees it brings are closed. -/
theorem after {command : Command} (htree : ∀ t, command = .tree t → t.Closed) :
    (f.after command).Sound := by
  cases command with
  | move d => exact h.move d
  | path p => exact h.setPath p
  | node id => exact h.setNode id
  | tree t => exact sound_ofTree (htree t rfl)

theorem run {commands : List Command} (htrees : ∀ t, Command.tree t ∈ commands → t.Closed) :
    (commands.foldl Focus.after f).Sound := by
  refine List.foldlRecOn commands Focus.after h fun f hf command hcommand => hf.after ?_
  rintro t rfl
  exact htrees t hcommand

end Sound

/-- Whatever is done to a focus that begins on the root of a tree, it is on a node after every
command, as long as the trees are closed: shared children and cycles are allowed, and every tree
that loads is closed.  A move says that there was one exactly if the path is another one; a path or
a node that is refused leaves everything as it was; and a new tree puts the focus on its root. -/
theorem focus_resolves (t : Tree) (ht : t.Closed) (commands : List Command)
    (htrees : ∀ u, Command.tree u ∈ commands → u.Closed) :
    let f := commands.foldl after (ofTree t)
    f.focused?.isSome ∧
    (∀ d, (f.move d).1.tree = f.tree ∧ ((f.move d).2 = true ↔ (f.move d).1.path ≠ f.path)) ∧
    (∀ p, (f.setPath p).2 = false → (f.setPath p).1 = f) ∧
    (∀ id, (f.setNode id).2 = false → (f.setNode id).1 = f) ∧
    (∀ u, (f.after (.tree u)).tree = u ∧ (f.after (.tree u)).path = []) ∧
    ∀ json u, Document.load json = .ok u → u.Closed := by
  intro f
  have hpath : ∀ p, (f.setPath p).2 = false → (f.setPath p).1 = f := by
    intro p
    unfold setPath
    split
    · intro h
      cases h
    · exact fun _ => rfl
  refine ⟨((sound_ofTree ht).run htrees).resolves, fun d => ⟨rfl, bne_iff_ne⟩, hpath, ?_,
    fun u => ⟨rfl, rfl⟩, fun _ _ => Tree.closed_of_load⟩
  intro id
  unfold setNode
  split
  · exact hpath _
  · exact fun _ => rfl

/-- A block that holds itself and, twice, a statement that leads back to the block. -/
def coil : Array Node := #[
  .ofEntries (.known .blockStatement ())
    [(.body, some 0), (.body, none), (.body, some 1), (.body, some 1)],
  .ofEntries (.known .expressionStatement ()) [(.expression, some 2)],
  .ofEntries (.known .awaitExpression ()) [(.argument, some 0)]]

theorem focus_resolves_coil :
    let t := Tree.ofNodes coil 0
    let f := [Command.tree t, .move .down, .move .next, .move .down, .move .down,
      .path [⟨"body", some 1⟩], .node 9].foldl after (ofTree t)
    t.Closed ∧ f.path = [⟨"body", some 2⟩, ⟨"expression", none⟩, ⟨"argument", none⟩] ∧
      f.focused?.isSome ∧ ((f.move .next).2 = true ↔ (f.move .next).1.path ≠ f.path) ∧
      (f.setNode 9).1 = f := by
  intro t f
  have ht : t.Closed := ⟨by decide, by decide⟩
  have htrees : ∀ u, Command.tree u ∈ [Command.tree t, .move .down, .move .next, .move .down,
      .move .down, .path [⟨"body", some 1⟩], .node 9] → u.Closed := by
    intro u hu
    obtain rfl : u = t := by simpa using hu
    exact ht
  obtain ⟨hfocused, hmove, -, hnode, -, -⟩ := focus_resolves t ht _ htrees
  exact ⟨ht, by decide, hfocused, (hmove .next).2, hnode 9 (by decide)⟩

end Focus

end SyntaxLens

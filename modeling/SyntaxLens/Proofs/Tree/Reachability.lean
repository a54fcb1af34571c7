import Mathlib.Data.List.TFAE
import SyntaxLens.Focus.State
import SyntaxLens.Proofs.Tree.Slots
import SyntaxLens.Proofs.Tree.Traversal

/-! # Reachability

A node is reached by the root if a walk visits it, if a path resolves to it, or if its chain of
parents leads up to the root.  On every arena the three say the same
(`traversals_and_paths_agree`), although the parents are noted when a node is put on the stack and
not when it is visited.

* The parent of a node is the first visited node that has it as a child (`parent?_eq_find?`), and it
  is visited before its child (`exists_parent`).  So positions in the walk fall along a chain of
  parents, and the chain ends at the root after fewer steps than the arena has nodes.
* `Climbs` is the loop up a chain of parents, as a derivation that follows the chain to its end. -/

namespace SyntaxLens.Tree

variable (t : Tree)

/-- The nodes that a walk visits, in order. -/
def order : List NodeId := t.walk.map Prod.fst

/-! ### Steps and paths -/

theorem step?_eq_some_iff (id : NodeId) (s : Segment) (c : NodeId) :
    t.step? id s = some c ↔ (∃ n, t.node? id = some n ∧ n.at? s = some c) ∧ t.has c := by
  unfold step? Node.at?
  constructor
  · intro h
    obtain ⟨n, hn, h⟩ := Option.bind_eq_some_iff.mp h
    obtain ⟨f, hf, h⟩ := Option.bind_eq_some_iff.mp h
    obtain ⟨d, hd, h⟩ := Option.bind_eq_some_iff.mp h
    obtain ⟨hhas, hdc⟩ := Option.ite_none_right_eq_some.mp h
    obtain rfl := Option.some.inj hdc
    exact ⟨⟨n, hn, Option.bind_eq_some_iff.mpr ⟨f, hf, hd⟩⟩, hhas⟩
  · rintro ⟨⟨n, hn, h⟩, hhas⟩
    obtain ⟨f, hf, hd⟩ := Option.bind_eq_some_iff.mp h
    simp [hn, hf, hd, hhas]

theorem children_eq_elim (id : NodeId) :
    t.children id = (t.node? id).elim [] Node.children := by
  unfold children childrenAt node?
  cases t.nodes[id]? <;> rfl

theorem mem_children_iff (id c : NodeId) :
    c ∈ t.children id ↔ ∃ n s, t.node? id = some n ∧ n.at? s = some c := by
  rw [children_eq_elim]
  cases t.node? id with
  | none => simp
  | some n => simp [n.mem_children_iff]

theorem has_of_node? {id : NodeId} {n : Node} (h : t.node? id = some n) : t.has id := by
  obtain ⟨hlt, _⟩ := Array.getElem?_eq_some_iff.mp h
  simpa [has] using hlt

/-- An arena with a node in it is not empty. -/
theorem exists_size_eq_succ {id : NodeId} {n : Node} (h : t.node? id = some n) :
    ∃ k, t.size = k + 1 := by
  obtain ⟨hlt, -⟩ := Array.getElem?_eq_some_iff.mp h
  exact Nat.exists_eq_succ_of_ne_zero (Nat.ne_zero_of_lt hlt)

theorem isSome_node?_iff (id : NodeId) : (t.node? id).isSome ↔ t.has id := by
  simp [node?, has]

theorem exists_node? {id : NodeId} (h : t.has id) : ∃ n, t.node? id = some n :=
  Option.isSome_iff_exists.mp ((t.isSome_node?_iff id).mpr h)

theorem mem_children_of_step? {id c : NodeId} {s : Segment} (h : t.step? id s = some c) :
    c ∈ t.children id := by
  obtain ⟨⟨n, hn, hs⟩, _⟩ := (t.step?_eq_some_iff id s c).mp h
  exact (t.mem_children_iff id c).mpr ⟨n, s, hn, hs⟩

theorem follow?_append (p q : Path) : ∀ id : NodeId,
    t.follow? id (p ++ q) = (t.follow? id p).bind fun c => t.follow? c q := by
  induction p with
  | nil => intro id; rfl
  | cons s p ih =>
      intro id
      rw [List.cons_append, follow?, follow?]
      cases t.step? id s with
      | none => rfl
      | some c => exact ih c

theorem resolve_nil : t.resolve [] = if t.has t.root then some t.root else none := rfl

theorem resolve_snoc (p : Path) (s : Segment) :
    t.resolve (p ++ [s]) = (t.resolve p).bind fun id => t.step? id s := by
  unfold resolve
  split
  · rw [follow?_append]
    congr 1
    funext c
    rw [follow?]
    cases t.step? c s <;> rfl
  · rfl

/-! ### The order of a walk -/

theorem order_nodup : t.order.Nodup := t.walk_walks.nodup.1

theorem has_of_mem_order {id : NodeId} (h : id ∈ t.order) : t.has id := by
  simpa [has] using (t.walk_walks.nodup.2 id h).1

theorem fresh_iff_has (id : NodeId) : Fresh t.nodes [] id ↔ t.has id := by simp [Fresh, has]

theorem length_order_le : t.order.length ≤ t.size := by
  have hsub : t.order ⊆ List.range t.size := by
    intro id h
    simpa [has, size] using t.has_of_mem_order h
  simpa using (t.order_nodup.subperm hsub).length_le

theorem root_mem_order (h : t.has t.root) : t.root ∈ t.order :=
  t.walk_walks.mem_of_stack (by simp) ((t.fresh_iff_has _).mpr h)

theorem mem_order_of_child {p c : NodeId} (hp : p ∈ t.order) (hc : c ∈ t.children p)
    (hhas : t.has c) : c ∈ t.order :=
  t.walk_walks.mem_of_child hp hc ((t.fresh_iff_has c).mpr hhas)

theorem mem_order_of_resolve {p : Path} :
    ∀ {id : NodeId}, t.resolve p = some id → id ∈ t.order := by
  induction p using List.reverseRecOn with
  | nil =>
      intro id h
      obtain ⟨hhas, hid⟩ := Option.ite_none_right_eq_some.mp (t.resolve_nil ▸ h)
      obtain rfl := Option.some.inj hid
      exact t.root_mem_order hhas
  | append_singleton p s ih =>
      intro id h
      rw [resolve_snoc] at h
      obtain ⟨owner, howner, hs⟩ := Option.bind_eq_some_iff.mp h
      exact t.mem_order_of_child (ih howner) (t.mem_children_of_step? hs)
        ((t.step?_eq_some_iff _ _ _).mp hs).2

/-! ### Parents -/

theorem parent?_root : t.parent? t.root = none := by
  have h := t.links_parents
  have hstale : ¬ Fresh t.nodes [t.root] t.root := fun hf => hf.2 List.mem_cons_self
  unfold parent?
  -- The first step sees the root or finds it outside; it is not fresh from then on.
  generalize t.walk.map Prod.fst = order at h
  cases h with
  | skip hf h => rw [h.lookup_stale hf]; rfl
  | visit hf h =>
      rw [h.lookup_stale hstale, lookup_foldl_adopt,
        if_neg fun hmem => hstale (mem_adoptable_iff.mp hmem).2]
      rfl

theorem parent?_eq_find? {id : NodeId} (hroot : id ≠ t.root) (hhas : t.has id) :
    t.parent? id = t.order.find? fun p => id ∈ t.children p := by
  have hstart : ∀ d, d ∈ [] ∨ d ∈ [t.root] →
      d = t.root ∨ (List.lookup d ([] : List (NodeId × NodeId))).isSome := by simp
  exact t.links_parents.lookup_eq hstart hroot (by simpa [has] using hhas)

/-- The parent of a node comes before it in a walk. -/
theorem exists_parent {before after : List NodeId} {id : NodeId}
    (horder : t.order = before ++ id :: after) (hroot : id ≠ t.root) :
    ∃ p ∈ before, t.parent? id = some p ∧ id ∈ t.children p := by
  obtain ⟨wbefore, wrest, hwalk, rfl, hrest⟩ := List.map_eq_append_iff.mp horder
  obtain ⟨x, wafter, rfl, rfl, -⟩ := List.map_eq_cons_iff.mp hrest
  have hhas : t.has x.1 := t.has_of_mem_order (by rw [horder]; simp)
  rcases t.walk_walks.origin hwalk with hstack | ⟨y, hy, hchild, -⟩
  · rw [List.mem_singleton] at hstack
    exact absurd (congrArg Prod.fst hstack) hroot
  · -- A visited node has the place as a child, so the first one does, and it comes no later.
    have hfound : ((wbefore.map Prod.fst).find? fun p => x.1 ∈ t.children p).isSome :=
      List.find?_isSome.mpr ⟨y.1, List.mem_map_of_mem hy, by simpa using hchild⟩
    obtain ⟨p, hp⟩ := Option.isSome_iff_exists.mp hfound
    refine ⟨p, List.mem_of_find?_eq_some hp, ?_, by simpa using List.find?_some hp⟩
    rw [t.parent?_eq_find? hroot hhas, horder, List.find?_append, hp, Option.some_or]

/-- The parent of a node comes before it. -/
theorem order_of_parent? {before after : List NodeId} {id p : NodeId}
    (horder : t.order = before ++ id :: after) (h : t.parent? id = some p) :
    ∃ earlier later, before = earlier ++ p :: later ∧
      t.order = earlier ++ p :: (later ++ id :: after) := by
  have hroot : id ≠ t.root := by
    rintro rfl
    rw [t.parent?_root] at h
    cases h
  obtain ⟨q, hq, hparent, -⟩ := t.exists_parent horder hroot
  obtain rfl := Option.some.inj (h.symm.trans hparent)
  obtain ⟨earlier, later, rfl⟩ := List.append_of_mem hq
  exact ⟨earlier, later, rfl, by rw [horder, List.append_assoc, List.cons_append]⟩

/-- What holds of the root and passes from parents to their children holds of every node that is
reached. -/
@[elab_as_elim]
theorem parent_induction {motive : (id : NodeId) → id ∈ t.order → Prop}
    (root : ∀ h : t.root ∈ t.order, motive t.root h)
    (child : ∀ {id p : NodeId} (h : id ∈ t.order) (hp : p ∈ t.order), t.parent? id = some p →
      id ∈ t.children p → motive p hp → motive id h) {id : NodeId} (h : id ∈ t.order) :
    motive id h := by
  obtain ⟨before, after, horder⟩ := List.append_of_mem h
  induction hlen : before.length using Nat.strong_induction_on generalizing before after id with
  | _ n ih =>
      by_cases hroot : id = t.root
      · subst hroot
        exact root h
      · obtain ⟨p, -, hparent, hchild⟩ := t.exists_parent horder hroot
        obtain ⟨earlier, later, rfl, hsplit⟩ := t.order_of_parent? horder hparent
        have hp : p ∈ t.order := by simp [hsplit]
        refine child h hp hparent hchild (ih earlier.length ?_ hp earlier _ hsplit rfl)
        rw [← hlen, List.length_append, List.length_cons]
        omega

/-! ### The way up -/

/-- The link from a node to its parent, with the segment that leads back down. -/
def uplink? (id : NodeId) : Option (NodeId × Segment) := do
  let parent ← t.parent? id
  let n ← t.node? parent
  let s ← n.segmentTo? id
  return (parent, s)

/-- The climb from a node, with the path `below` under it, comes to an end: with a path if it meets
the root, with none if it meets a node without a link. -/
inductive Climbs (t : Tree) : NodeId → (below : Path) → (result : Option Path) → Prop
  | root (below : Path) : Climbs t t.root below (some below)
  | lost {id : NodeId} {below : Path} : id ≠ t.root → t.uplink? id = none → Climbs t id below none
  | up {id parent : NodeId} {s : Segment} {below : Path} {result : Option Path} : id ≠ t.root →
      t.uplink? id = some (parent, s) → Climbs t parent (s :: below) result →
      Climbs t id below result

theorem climb_root (steps : ℕ) (below : Path) : t.climb steps t.root below = some below := by
  cases steps <;> simp [climb]

theorem pathOf?_root (h : t.has t.root) : t.pathOf? t.root = some [] := by
  rw [pathOf?, if_pos h, climb_root]

theorem climb_succ {id : NodeId} (hroot : id ≠ t.root) (steps : ℕ) (below : Path) :
    t.climb (steps + 1) id below =
      (t.uplink? id).bind fun link => t.climb steps link.1 (link.2 :: below) := by
  rw [climb, if_neg hroot]
  simp only [uplink?, Option.bind_eq_bind, Option.bind_assoc, Option.pure_def, Option.bind_some]

theorem climb_of_uplink?_eq_none {id : NodeId} (hroot : id ≠ t.root) (h : t.uplink? id = none)
    (steps : ℕ) (below : Path) : t.climb steps id below = none := by
  cases steps with
  | zero => simp [climb, hroot]
  | succ steps => rw [t.climb_succ hroot, h]; rfl

theorem uplink?_eq_some {id p : NodeId} (hp : t.parent? id = some p) (hc : id ∈ t.children p)
    (hhas : t.has id) : ∃ s, t.uplink? id = some (p, s) ∧ t.step? p s = some id := by
  obtain ⟨n, _, hn, hat⟩ := (t.mem_children_iff p id).mp hc
  obtain ⟨s, hs⟩ := n.exists_segmentTo? ((n.mem_children_iff id).mpr ⟨_, hat⟩)
  refine ⟨s, by simp [uplink?, hp, hn, hs], ?_⟩
  exact (t.step?_eq_some_iff p s id).mpr ⟨⟨n, hn, n.at?_of_segmentTo? hs⟩, hhas⟩

/-- The climb from a visited node meets the root after at most as many steps as nodes were visited
before, and the path that it finds leads back. -/
theorem climb_of_order (steps : ℕ) : ∀ {before after : List NodeId} {id : NodeId},
    t.order = before ++ id :: after → before.length ≤ steps → ∃ p, t.resolve p = some id ∧
      ∀ below, t.climb steps id below = some (p ++ below) ∧
        Climbs t id below (some (p ++ below)) := by
  induction steps with
  | zero =>
      intro before after id horder hlen
      obtain rfl : before = [] := List.length_eq_zero_iff.mp (Nat.le_zero.mp hlen)
      have hroot : id = t.root := by
        by_contra hne
        obtain ⟨p, hp, -⟩ := t.exists_parent horder hne
        simp at hp
      have hhas : t.has t.root := t.has_of_mem_order (by rw [horder, hroot]; simp)
      subst hroot
      exact ⟨[], by rw [resolve_nil, if_pos hhas], fun below => ⟨t.climb_root 0 below, .root below⟩⟩
  | succ steps ih =>
      intro before after id horder hlen
      have hhas : t.has id := t.has_of_mem_order (by rw [horder]; simp)
      by_cases hroot : id = t.root
      · subst hroot
        exact ⟨[], by rw [resolve_nil, if_pos hhas],
          fun below => ⟨t.climb_root _ below, .root below⟩⟩
      · obtain ⟨p, hp, hparent, hchild⟩ := t.exists_parent horder hroot
        obtain ⟨s, hlink, hstep⟩ := t.uplink?_eq_some hparent hchild hhas
        obtain ⟨earlier, later, rfl⟩ := List.append_of_mem hp
        rw [List.append_assoc, List.cons_append] at horder
        obtain ⟨q, hq, hclimb⟩ := ih horder (by simp at hlen; omega)
        refine ⟨q ++ [s], by rw [resolve_snoc, hq]; exact hstep, fun below => ?_⟩
        have hup := hclimb (s :: below)
        rw [t.climb_succ hroot, hlink, List.append_assoc, List.singleton_append]
        exact ⟨hup.1, .up hroot hlink hup.2⟩

/-- What a walk does not visit has no link up. -/
theorem uplink?_eq_none {id : NodeId} (h : id ∉ t.order) (hhas : t.has id) :
    id ≠ t.root ∧ t.uplink? id = none := by
  have hroot : id ≠ t.root := fun hroot => h (hroot ▸ t.root_mem_order (hroot ▸ hhas))
  have hnone : t.parent? id = none := by
    rw [t.parent?_eq_find? hroot hhas, List.find?_eq_none]
    intro p hp hc
    exact h (t.mem_order_of_child hp (by simpa using hc) hhas)
  exact ⟨hroot, by simp [uplink?, hnone]⟩

theorem climb_of_mem_order {id : NodeId} (h : id ∈ t.order) : ∃ p, t.resolve p = some id ∧
    ∀ below, t.climb t.size id below = some (p ++ below) ∧
      Climbs t id below (some (p ++ below)) := by
  obtain ⟨before, after, horder⟩ := List.append_of_mem h
  have hlen := t.length_order_le
  rw [horder, List.length_append] at hlen
  exact t.climb_of_order t.size horder (by omega)

theorem pathOf?_of_mem_order {id : NodeId} (h : id ∈ t.order) :
    ∃ p, t.pathOf? id = some p ∧ t.resolve p = some id := by
  obtain ⟨p, hp, hclimb⟩ := t.climb_of_mem_order h
  refine ⟨p, ?_, hp⟩
  rw [pathOf?, if_pos (t.has_of_mem_order h), (hclimb []).1, List.append_nil]

theorem pathOf?_of_not_mem_order {id : NodeId} (h : id ∉ t.order) : t.pathOf? id = none := by
  unfold pathOf?
  split
  · rename_i hhas
    obtain ⟨hroot, hlink⟩ := t.uplink?_eq_none h hhas
    exact t.climb_of_uplink?_eq_none hroot hlink _ _
  · rfl

theorem resolve_of_pathOf? {id : NodeId} {p : Path} (h : t.pathOf? id = some p) :
    t.resolve p = some id := by
  by_cases hmem : id ∈ t.order
  · obtain ⟨q, hq, hresolve⟩ := t.pathOf?_of_mem_order hmem
    rwa [Option.some.inj (h.symm.trans hq)]
  · rw [t.pathOf?_of_not_mem_order hmem] at h
    cases h

/-- The path of every node of the arena is the result of a climb that ends. -/
theorem climbs_pathOf? {id : NodeId} (hhas : t.has id) : Climbs t id [] (t.pathOf? id) := by
  by_cases h : id ∈ t.order
  · obtain ⟨p, _, hclimb⟩ := t.climb_of_mem_order h
    rw [pathOf?, if_pos hhas, (hclimb []).1]
    exact (hclimb []).2
  · obtain ⟨hroot, hlink⟩ := t.uplink?_eq_none h hhas
    rw [t.pathOf?_of_not_mem_order h]
    exact .lost hroot hlink

/-! ### Agreement -/

theorem reached_tfae (id : NodeId) :
    [id ∈ t.order, ∃ p, t.resolve p = some id, (t.pathOf? id).isSome].TFAE := by
  tfae_have 1 → 3 := fun h => by
    obtain ⟨p, hp, _⟩ := t.pathOf?_of_mem_order h
    rw [hp, Option.isSome_some]
  tfae_have 3 → 2 := fun h => by
    obtain ⟨p, hp⟩ := Option.isSome_iff_exists.mp h
    exact ⟨p, t.resolve_of_pathOf? hp⟩
  tfae_have 2 → 1 := fun ⟨_, hp⟩ => t.mem_order_of_resolve hp
  tfae_finish

theorem setNode_eq (path : Path) (id : NodeId) :
    (⟨t, path⟩ : Focus).setNode id =
      match t.pathOf? id with
      | some p => (⟨t, p⟩, true)
      | none => (⟨t, path⟩, false) := by
  unfold Focus.setNode
  cases h : t.pathOf? id with
  | none => rfl
  | some p => simp [Focus.setPath, t.resolve_of_pathOf? h]

/-- On every arena, whatever its children are, the linking of parents, the walk and the climb to the
root end.  A node is visited by the walk exactly if a path resolves to it and exactly if it has a
path; then it is visited once and its path resolves to it.  The root has no parent, and the parent
of every other node that is reached is the first visited node that has it as a child.  The focus can
be put exactly on the nodes that are reached, and stays where it was otherwise. -/
theorem traversals_and_paths_agree (nodes : Array Node) (root : NodeId) :
    let t := ofNodes nodes root
    (Links nodes [root] [] [] t.order t.parents ∧ Walks t [(root, 0)] [] t.walk ∧
      ∀ id, t.has id → Climbs t id [] (t.pathOf? id)) ∧
    (∀ id, [id ∈ t.order, ∃ p, t.resolve p = some id, (t.pathOf? id).isSome].TFAE) ∧
    (∀ id ∈ t.order, t.order.count id = 1 ∧ (t.pathOf? id).bind t.resolve = some id) ∧
    t.parent? root = none ∧
    (∀ id ∈ t.order, id ≠ root → ∃ p, t.parent? id = some p ∧
      (t.order.find? fun q => id ∈ t.children q) = some p) ∧
    ∀ (path : Path) (id : NodeId),
      let f : Focus := ⟨t, path⟩
      if id ∈ t.order then (f.setNode id).2 = true ∧ (f.setNode id).1.tree = t ∧
        (f.setNode id).1.focused? = some id
      else f.setNode id = (f, false) := by
  intro t
  refine ⟨⟨t.links_parents, t.walk_walks, fun id => t.climbs_pathOf?⟩, t.reached_tfae, ?_,
    t.parent?_root, ?_, ?_⟩
  · intro id h
    obtain ⟨p, hp, hresolve⟩ := t.pathOf?_of_mem_order h
    exact ⟨List.count_eq_one_of_mem t.order_nodup h, by rw [hp]; exact hresolve⟩
  · intro id h hroot
    obtain ⟨before, after, horder⟩ := List.append_of_mem h
    obtain ⟨p, _, hparent, _⟩ := t.exists_parent horder hroot
    exact ⟨p, hparent, by rw [← t.parent?_eq_find? hroot (t.has_of_mem_order h), hparent]⟩
  · intro path id f
    rw [t.setNode_eq path id]
    split
    · rename_i h
      obtain ⟨p, hp, hresolve⟩ := t.pathOf?_of_mem_order h
      simp [hp, Focus.focused?, hresolve]
    · rename_i h
      rw [t.pathOf?_of_not_mem_order h]

/-- A block that holds itself, one statement twice and a place outside; the statement leads back to
the block, and an identifier is left over. -/
def knot : Array Node := #[
  .ofEntries (.known .blockStatement ())
    [(.body, some 0), (.body, some 1), (.body, none), (.body, some 1), (.body, some 9)],
  .ofEntries (.known .expressionStatement ()) [(.expression, some 2)],
  .ofEntries (.known .awaitExpression ()) [(.argument, some 0)],
  .ofEntries (.known .identifier "left") []]

theorem traversals_and_paths_agree_knot :
    2 ∈ (ofNodes knot 0).order ∧ (ofNodes knot 0).order.count 2 = 1 ∧
      ((ofNodes knot 0).pathOf? 2).bind (ofNodes knot 0).resolve = some 2 ∧
      ∃ p, (ofNodes knot 0).parent? 2 = some p ∧
        ((ofNodes knot 0).order.find? fun q => 2 ∈ (ofNodes knot 0).children q) = some p := by
  have hmem : 2 ∈ (ofNodes knot 0).order := by decide
  obtain ⟨-, -, honce, -, hparent, -⟩ := traversals_and_paths_agree knot 0
  exact ⟨hmem, (honce 2 hmem).1, (honce 2 hmem).2, hparent 2 hmem (by decide)⟩

end SyntaxLens.Tree

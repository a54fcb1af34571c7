import SyntaxLens.Proofs.Tree.Reachability

/-! # Strict trees

A tree is strict if its root comes first in the arena and every other node stands in one child slot
of the whole arena, below an owner that comes before it.  Trees that were loaded are strict.

In a strict tree the owner of a node is its parent (`Strict.parent?_eq`), every node is reached
(`Strict.mem_order`), and a node has one path only, so `Tree.resolve` and `Tree.pathOf?` undo each
other (`Strict.resolve_eq_some_iff`).  A walk comes to a node at the depth that its path is long
(`Strict.mem_walk_iff`). -/

namespace SyntaxLens.Tree

/-- What the child slots of the arena hold, node by node. -/
def slots (t : Tree) : List NodeId := t.nodes.toList.flatMap Node.children

/-- Every node but the root, which comes first, stands in one slot of the arena, and its owner comes
before it. -/
structure Strict (t : Tree) : Prop where
  root_eq : t.root = 0
  has_root : t.has t.root
  owner_lt : ∀ owner c, c ∈ t.children owner → owner < c ∧ t.has c
  slot_once : ∀ id, t.has id → id ≠ t.root → t.slots.count id = 1

section slots
variable (t : Tree)

theorem children_eq_getElem {owner : NodeId} (h : owner < t.nodes.size) :
    t.children owner = t.nodes[owner].children := by
  simp [children, childrenAt, h]

theorem lt_size_of_mem_children {owner c : NodeId} (h : c ∈ t.children owner) :
    owner < t.nodes.size := by
  obtain ⟨n, _, hn, _⟩ := (t.mem_children_iff owner c).mp h
  exact (Array.getElem?_eq_some_iff.mp hn).1

theorem mem_slots_iff (c : NodeId) : c ∈ t.slots ↔ ∃ owner, c ∈ t.children owner := by
  unfold slots
  constructor
  · intro h
    obtain ⟨n, hn, hc⟩ := List.mem_flatMap.mp h
    obtain ⟨owner, hlt, rfl⟩ := List.mem_iff_getElem.mp hn
    refine ⟨owner, ?_⟩
    rw [t.children_eq_getElem (by simpa using hlt)]
    simpa using hc
  · rintro ⟨owner, hc⟩
    have hlt := t.lt_size_of_mem_children hc
    rw [t.children_eq_getElem hlt] at hc
    exact List.mem_flatMap.mpr ⟨_, Array.getElem_mem_toList hlt, hc⟩

end slots

namespace Strict

variable {t : Tree} (h : t.Strict)
include h

theorem ne_root_of_mem_children {owner c : NodeId} (hc : c ∈ t.children owner) : c ≠ t.root := by
  have hlt : owner < c := (h.owner_lt owner c hc).1
  rw [h.root_eq]
  exact Nat.ne_of_gt (Nat.zero_lt_of_lt hlt)

theorem slots_nodup : t.slots.Nodup := by
  rw [List.nodup_iff_count_le_one]
  intro c
  by_cases hc : c ∈ t.slots
  · obtain ⟨owner, howner⟩ := (t.mem_slots_iff c).mp hc
    exact (h.slot_once c (h.owner_lt owner c howner).2 (h.ne_root_of_mem_children howner)).le
  · rw [List.count_eq_zero_of_not_mem hc]
    omega

theorem children_nodup (owner : NodeId) : (t.children owner).Nodup := by
  by_cases hlt : owner < t.nodes.size
  · rw [t.children_eq_getElem hlt]
    exact (List.nodup_flatMap.mp h.slots_nodup).1 _ (Array.getElem_mem_toList hlt)
  · simp [children, childrenAt, hlt]

/-- No node stands below two owners. -/
theorem owner_unique {p q c : NodeId} (hp : c ∈ t.children p) (hq : c ∈ t.children q) : p = q := by
  have hdisjoint := List.pairwise_iff_getElem.mp (List.nodup_flatMap.mp h.slots_nodup).2
  have key : ∀ {p q : NodeId}, c ∈ t.children p → c ∈ t.children q → ¬ p < q := by
    intro p q hp hq hlt
    have hpsize := t.lt_size_of_mem_children hp
    have hqsize := t.lt_size_of_mem_children hq
    rw [t.children_eq_getElem hpsize] at hp
    rw [t.children_eq_getElem hqsize] at hq
    exact hdisjoint p q (by simpa using hpsize) (by simpa using hqsize) hlt hp hq
  exact le_antisymm (not_lt.mp (key hq hp)) (not_lt.mp (key hp hq))

theorem exists_owner {id : NodeId} (hhas : t.has id) (hroot : id ≠ t.root) :
    ∃ owner < id, id ∈ t.children owner := by
  have hmem : id ∈ t.slots := List.count_pos_iff.mp (by rw [h.slot_once id hhas hroot]; omega)
  obtain ⟨owner, howner⟩ := (t.mem_slots_iff id).mp hmem
  exact ⟨owner, (h.owner_lt owner id howner).1, howner⟩

theorem mem_order {id : NodeId} (hhas : t.has id) : id ∈ t.order := by
  induction id using Nat.strong_induction_on with
  | _ id ih =>
      by_cases hroot : id = t.root
      · exact hroot ▸ t.root_mem_order h.has_root
      · obtain ⟨owner, hlt, howner⟩ := h.exists_owner hhas hroot
        have hsize : t.has owner := by simpa [has] using t.lt_size_of_mem_children howner
        exact t.mem_order_of_child (ih owner hlt hsize) howner hhas

theorem parent?_eq {owner id : NodeId} (howner : id ∈ t.children owner) :
    t.parent? id = some owner := by
  obtain ⟨before, after, horder⟩ := List.append_of_mem (h.mem_order (h.owner_lt owner id howner).2)
  obtain ⟨p, _, hp, hchild⟩ := t.exists_parent horder (h.ne_root_of_mem_children howner)
  rw [hp, h.owner_unique hchild howner]

/-- A step back up is the only one. -/
theorem step?_unique {p q c : NodeId} {s s' : Segment} (hs : t.step? p s = some c)
    (hs' : t.step? q s' = some c) : p = q ∧ s = s' := by
  obtain rfl := h.owner_unique (t.mem_children_of_step? hs) (t.mem_children_of_step? hs')
  obtain ⟨⟨n, hn, hat⟩, _⟩ := (t.step?_eq_some_iff p s c).mp hs
  obtain ⟨⟨n', hn', hat'⟩, _⟩ := (t.step?_eq_some_iff p s' c).mp hs'
  obtain rfl := Option.some.inj (hn.symm.trans hn')
  have hcount := List.nodup_iff_count_le_one.mp (h.children_nodup p) c
  have hchildren : t.children p = n.children := by rw [children_eq_elim, hn, Option.elim_some]
  rw [hchildren] at hcount
  exact ⟨rfl, n.eq_of_at? hcount hat hat'⟩

/-- A node has one path only. -/
theorem resolve_unique : ∀ {p q : Path} {id : NodeId}, t.resolve p = some id →
    t.resolve q = some id → p = q := by
  intro p
  induction p using List.reverseRecOn with
  | nil =>
      intro q id hp hq
      rw [resolve_nil, if_pos h.has_root] at hp
      cases q using List.reverseRecOn with
      | nil => rfl
      | append_singleton q s =>
          rw [resolve_snoc] at hq
          obtain ⟨owner, _, hs⟩ := Option.bind_eq_some_iff.mp hq
          exact absurd (Option.some.inj hp).symm
            (h.ne_root_of_mem_children (t.mem_children_of_step? hs))
  | append_singleton p s ih =>
      intro q id hp hq
      rw [resolve_snoc] at hp
      obtain ⟨owner, howner, hs⟩ := Option.bind_eq_some_iff.mp hp
      cases q using List.reverseRecOn with
      | nil =>
          rw [resolve_nil, if_pos h.has_root] at hq
          exact absurd (Option.some.inj hq).symm
            (h.ne_root_of_mem_children (t.mem_children_of_step? hs))
      | append_singleton q s' =>
          rw [resolve_snoc] at hq
          obtain ⟨owner', howner', hs'⟩ := Option.bind_eq_some_iff.mp hq
          obtain ⟨rfl, rfl⟩ := h.step?_unique hs hs'
          rw [ih howner howner']

/-- Resolving a path and finding the path of a node undo each other. -/
theorem resolve_eq_some_iff (p : Path) (id : NodeId) :
    t.resolve p = some id ↔ t.pathOf? id = some p := by
  constructor
  · intro hp
    obtain ⟨q, hq, hresolve⟩ := t.pathOf?_of_mem_order (t.mem_order_of_resolve hp)
    rw [hq, h.resolve_unique hp hresolve]
  · exact t.resolve_of_pathOf?

/-- A walk comes to a node at the depth that its path is long. -/
theorem pathOf?_of_mem_walk {id depth : ℕ} (hmem : (id, depth) ∈ t.walk) :
    ∃ p, t.pathOf? id = some p ∧ p.length = depth := by
  induction id using Nat.strong_induction_on generalizing depth with
  | _ id ih =>
      obtain ⟨before, after, hwalk⟩ := List.append_of_mem hmem
      rcases t.walk_walks.origin hwalk with hstack | ⟨⟨owner, above⟩, hy, hchild, rfl⟩
      · obtain ⟨rfl, rfl⟩ := Prod.mk.inj (List.mem_singleton.mp hstack)
        exact ⟨[], (h.resolve_eq_some_iff _ _).mp (by rw [resolve_nil, if_pos h.has_root]), rfl⟩
      · obtain ⟨hlt, hhas⟩ := h.owner_lt owner id hchild
        have hmem' : (owner, above) ∈ t.walk := hwalk ▸ List.mem_append_left _ hy
        obtain ⟨p, hp, rfl⟩ := ih owner hlt hmem'
        obtain ⟨n, s, hn, hat⟩ := (t.mem_children_iff owner id).mp hchild
        have hstep : t.step? owner s = some id :=
          (t.step?_eq_some_iff owner s id).mpr ⟨⟨n, hn, hat⟩, hhas⟩
        refine ⟨p ++ [s], (h.resolve_eq_some_iff _ _).mp ?_, by simp⟩
        rw [resolve_snoc, t.resolve_of_pathOf? hp]
        exact hstep

theorem mem_walk_iff (id depth : ℕ) :
    (id, depth) ∈ t.walk ↔ t.has id ∧ (t.pathOf? id).map List.length = some depth := by
  constructor
  · intro hmem
    obtain ⟨p, hp, rfl⟩ := h.pathOf?_of_mem_walk hmem
    exact ⟨t.has_of_mem_order (List.mem_map_of_mem hmem), by rw [hp]; rfl⟩
  · rintro ⟨hhas, hlen⟩
    obtain ⟨⟨_, d⟩, hmem, rfl⟩ := List.mem_map.mp (h.mem_order hhas)
    obtain ⟨p, hp, rfl⟩ := h.pathOf?_of_mem_walk hmem
    rw [hp] at hlen
    rwa [← Option.some.inj hlen]

end Strict

end SyntaxLens.Tree

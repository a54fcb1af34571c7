import SyntaxLens.Proofs.Focus.Moves
import SyntaxLens.Proofs.Format.Entries

/-! # The connectors of outlines

In a strict tree what comes before a description can be told from the path of the node alone
(`Outline.lead`): a cell for every node on the way down, blank if that node is the last child of its
parent, and then a connector that is closed if the node itself is.  The recursion that writes the
lines looks at no path: it carries a prefix down and asks whether children are left in a list.

* **Ancestors.**  The prefixes of a path lead to the chain of parents, each at its depth in the walk
  (`Tree.Strict.parent?_ancestor`, `Tree.Strict.ancestor_mem_walk`).
* **Last children.**  What is left of a list without repetition is nothing exactly at its last
  element, so the question that the recursion asks is whether a node is the last child of its parent
  (`Outline.isEmpty_eq_isLast`).
* **Prefixes.**  The prefix below a node is `Outline.cells` of its path, and one step down adds the
  cell of the child (`Outline.cells_snoc`).  So all lines below a node have the lead of their own
  node (`Outline.below_leads`), whatever was shown before. -/

namespace SyntaxLens

namespace Tree

/-- Whether a node is the last child of its parent. -/
def isLast (t : Tree) (id : NodeId) : Bool :=
  (t.parent? id).any fun owner => (t.children owner).getLast? == some id

/-- The node at a depth on the way along a path. -/
def ancestor (t : Tree) (p : Path) (depth : ℕ) : NodeId := (t.resolve (p.take depth)).getD t.root

section ancestors
variable {t : Tree} {p : Path} {id : NodeId}

theorem ancestor_append {depth : ℕ} (hdepth : depth ≤ p.length) (q : Path) :
    t.ancestor (p ++ q) depth = t.ancestor p depth := by
  rw [ancestor, List.take_append_of_le_length hdepth, ancestor]

theorem ancestor_length (hp : t.resolve p = some id) : t.ancestor p p.length = id := by
  rw [ancestor, List.take_length, hp, Option.getD_some]

theorem resolve_take (hp : t.resolve p = some id) (depth : ℕ) :
    t.resolve (p.take depth) = some (t.ancestor p depth) := by
  have hsome : (t.resolve (p.take depth ++ p.drop depth)).isSome := by
    rw [List.take_append_drop, hp, Option.isSome_some]
  obtain ⟨a, ha⟩ := Option.isSome_iff_exists.mp (isSome_resolve_left hsome)
  rw [ancestor, ha, Option.getD_some]

variable (h : t.Strict) (hp : t.resolve p = some id) {depth : ℕ}
include h hp

/-- A walk comes to each node on the way at its depth. -/
theorem Strict.ancestor_mem_walk (hdepth : depth ≤ p.length) :
    (t.ancestor p depth, depth) ∈ t.walk := by
  have ha := resolve_take hp depth
  refine (h.mem_walk_iff _ _).mpr ⟨t.has_of_mem_order (t.mem_order_of_resolve ha), ?_⟩
  rw [(h.resolve_eq_some_iff _ _).mp ha, Option.map_some, List.length_take_of_le hdepth]

/-- Each node on the way is the parent of the next. -/
theorem Strict.parent?_ancestor (hdepth : depth < p.length) :
    t.parent? (t.ancestor p (depth + 1)) = some (t.ancestor p depth) := by
  have hnext := resolve_take hp (depth + 1)
  rw [List.take_add_one, List.getElem?_eq_getElem hdepth, Option.toList_some, t.resolve_snoc,
    resolve_take hp depth] at hnext
  exact h.parent?_eq (t.mem_children_of_step? hnext)

end ancestors

end Tree

namespace Outline

section leads
variable (t : Tree)

/-- What stands before the connectors of the children of the node at the end of a path: a cell for
every node on the way, but none for the root. -/
def cells (p : Path) : String :=
  String.join ((List.range p.length).map fun j =>
    if t.isLast (t.ancestor p (j + 1)) then "   " else "│  ")

/-- What comes before the description of a node. -/
def lead (id : NodeId) : String :=
  match t.pathOf? id with
  | none | some [] => ""
  | some (s :: p) =>
    cells t (s :: p).dropLast ++ (if t.isLast id then "└─ " else "├─ ") ++
      ((s :: p).getLast (List.cons_ne_nil s p)).text ++ " "

variable {t} {p : Path} {s : Segment} {id : NodeId}

theorem cells_snoc (h : t.resolve (p ++ [s]) = some id) :
    cells t (p ++ [s]) = cells t p ++ if t.isLast id then "   " else "│  " := by
  have hprefix : ∀ j ∈ List.range p.length,
      (if t.isLast (t.ancestor (p ++ [s]) (j + 1)) then "   " else "│  ") =
        if t.isLast (t.ancestor p (j + 1)) then "   " else "│  " := by
    intro j hj
    rw [Tree.ancestor_append (Nat.succ_le_of_lt (List.mem_range.mp hj))]
  have hlast := Tree.ancestor_length h
  rw [List.length_append, List.length_singleton] at hlast
  rw [cells, List.length_append, List.length_singleton, List.range_succ, List.map_append,
    String.join_append, List.map_congr_left hprefix, List.map_singleton, hlast]
  simp [cells]

theorem lead_root (h : t.pathOf? id = some []) : lead t id = "" := by
  rw [lead, h]

theorem lead_snoc (h : t.pathOf? id = some (p ++ [s])) :
    lead t id = cells t p ++ (if t.isLast id then "└─ " else "├─ ") ++ s.text ++ " " := by
  unfold lead
  rw [h]
  cases hp : p ++ [s] with
  | nil => simp at hp
  | cons s' p' => simp only [← hp, List.dropLast_concat, List.getLast_append_singleton]

end leads

/-! ### Last children -/

theorem getLast?_eq_iff_of_nodup {before rest : List NodeId} {id : NodeId}
    (h : (before ++ id :: rest).Nodup) :
    (before ++ id :: rest).getLast? = some id ↔ rest = [] := by
  rw [List.getLast?_append_cons]
  constructor
  · intro hlast
    by_contra hrest
    obtain ⟨hnot, -⟩ := List.nodup_cons.mp (List.nodup_append.mp h).2.1
    rw [List.getLast?_cons_of_ne_nil hrest] at hlast
    exact hnot (List.mem_of_getLast? hlast)
  · rintro rfl
    rfl

section strict
variable {t : Tree} (h : t.Strict) {owner id : NodeId} {s : Segment}
  {rest : List (Segment × NodeId)}
include h

/-- Children are left in the list exactly as long as the last child was not met. -/
theorem isEmpty_eq_isLast (hsuffix : (s, id) :: rest <:+ t.segments owner) :
    rest.isEmpty = t.isLast id := by
  obtain ⟨before, hbefore⟩ := hsuffix
  have hchildren : t.children owner = before.map Prod.snd ++ id :: rest.map Prod.snd := by
    rw [← t.map_snd_segments, ← hbefore, List.map_append, List.map_cons]
  have hlast := getLast?_eq_iff_of_nodup (hchildren ▸ h.children_nodup owner)
  have hparent : t.parent? id = some owner :=
    h.parent?_eq (hchildren ▸ List.mem_append_right _ List.mem_cons_self)
  rw [Tree.isLast, hparent, Option.any_some, hchildren, Bool.eq_iff_iff, List.isEmpty_iff,
    beq_iff_eq, hlast, List.map_eq_nil_iff]

theorem pathOf?_snoc {p : Path} (howner : t.pathOf? owner = some p)
    (hmem : (s, id) ∈ t.segments owner) : t.pathOf? id = some (p ++ [s]) := by
  rw [← h.resolve_eq_some_iff, t.resolve_snoc, t.resolve_of_pathOf? howner]
  unfold Tree.segments at hmem
  split at hmem
  · rename_i n hn
    exact h.closed.step?_of_at? hn ((n.mem_segments_iff s id).mp hmem)
  · cases hmem

/-! ### Lines -/

/-- All lines below a node have the lead of their own node. -/
def Leading (t : Tree) (entries : List Entry) : Prop := ∀ e ∈ entries, e.lead = lead t e.id

theorem siblings_leads {below : NodeId → String → List NodeId → List Entry × List NodeId}
    (hbelow : ∀ id p seen, t.pathOf? id = some p → Leading t (below id (cells t p) seen).1)
    {p : Path} (howner : t.pathOf? owner = some p) (children : List (Segment × NodeId)) :
    ∀ seen, children <:+ t.segments owner →
      Leading t (siblings t below (cells t p) children seen).1 := by
  induction children with
  | nil => exact fun _ _ _ he => absurd he List.not_mem_nil
  | cons child rest ih =>
      obtain ⟨s, id⟩ := child
      intro seen hsuffix
      have hrest := (List.suffix_cons (s, id) rest).trans hsuffix
      by_cases hf : Tree.Fresh t.nodes seen id
      · have hpath := pathOf?_snoc h howner (hsuffix.subset List.mem_cons_self)
        have hcells := cells_snoc (t.resolve_of_pathOf? hpath)
        rw [siblings_of_fresh hf, isEmpty_eq_isLast h hsuffix, ← hcells]
        intro e he
        rcases List.mem_append.mp he with he | he
        · rcases List.mem_cons.mp he with rfl | he
          · exact (lead_snoc hpath).symm
          · exact hbelow id (p ++ [s]) _ hpath e he
        · exact ih _ hrest e he
      · rw [siblings_of_not_fresh hf]
        exact ih seen hrest

theorem below_leads (levels : ℕ) : ∀ (id : NodeId) (p : Path) (seen : List NodeId),
    t.pathOf? id = some p → Leading t (below t levels id (cells t p) seen).1 := by
  induction levels with
  | zero => exact fun _ _ _ _ _ he => absurd he List.not_mem_nil
  | succ levels ih =>
      intro id p seen hpath
      rw [below]
      exact siblings_leads h ih hpath (t.segments id) seen List.suffix_rfl

theorem entries_leads : Leading t (entries t) := by
  have hroot := t.pathOf?_root h.has_root
  rw [entries, if_pos h.has_root]
  intro e he
  rcases List.mem_cons.mp he with rfl | he
  · exact (lead_root hroot).symm
  · exact below_leads h t.size t.root [] [t.root] hroot e he

theorem outline_eq (focus : Path) (width : ℕ) :
    t.outline focus width = String.join (t.walk.map fun visit =>
      lead t visit.1 ++ describe t (t.resolve focus) width visit.1 ++ "\n") := by
  have hmap : (fun visit : NodeId × ℕ =>
      lead t visit.1 ++ describe t (t.resolve focus) width visit.1 ++ "\n") =
        (fun id => lead t id ++ describe t (t.resolve focus) width id ++ "\n") ∘ Prod.fst := rfl
  rw [hmap, ← List.map_map]
  change _ = String.join (t.order.map _)
  rw [← ids_entries, List.map_map, Tree.outline]
  congr 1
  refine List.map_congr_left fun e he => ?_
  rw [entries_leads h e he]
  rfl

end strict

end Outline

namespace Document

/-- The outline of a loaded tree has one line for every node that a walk visits, in that order, each
with its end.  The line of the root is its description.  The line of a node below has, before its
description, a cell for every ancestor but the root, blank if this is the last child of its parent,
then the connector of the node, closed if the node is the last child of its parent, and the last
segment of its path.  The ancestors are the chain of parents, each at its depth in the walk. -/
theorem load_connectors (json : Json) (t : Tree) (hload : load json = .ok t) (focus : Path)
    (width : ℕ) :
    t.outline focus width = String.join (t.walk.map fun visit =>
      Outline.lead t visit.1 ++ Outline.describe t (t.resolve focus) width visit.1 ++ "\n") ∧
    Outline.lead t t.root = "" ∧
    ∀ id depth, (id, depth + 1) ∈ t.walk → ∃ (p : Path) (s : Segment) (ancestor : ℕ → NodeId),
      t.pathOf? id = some (p ++ [s]) ∧
      ancestor 0 = t.root ∧ ancestor (depth + 1) = id ∧
      (∀ j ≤ depth, t.parent? (ancestor (j + 1)) = some (ancestor j)) ∧
      (∀ j ≤ depth, (ancestor j, j) ∈ t.walk) ∧
      Outline.lead t id =
        String.join ((List.range depth).map fun j =>
          if t.isLast (ancestor (j + 1)) then "   " else "│  ") ++
        (if t.isLast id then "└─ " else "├─ ") ++ s.text ++ " " := by
  obtain ⟨d, hd, rfl⟩ := (load_eq_ok_iff json t).mp hload
  have h := hd.strict
  refine ⟨Outline.outline_eq h focus width, Outline.lead_root (Tree.pathOf?_root _ h.has_root), ?_⟩
  intro id depth hmem
  obtain ⟨path, hpath, hlength⟩ := h.pathOf?_of_mem_walk hmem
  obtain ⟨p, s, rfl⟩ : ∃ p s, path = p ++ [s] := by
    refine (List.eq_nil_or_concat' path).resolve_left ?_
    rintro rfl
    cases hlength
  have hresolve := d.toTree.resolve_of_pathOf? hpath
  obtain rfl : p.length = depth := by simpa using hlength
  refine ⟨p, s, d.toTree.ancestor (p ++ [s]), hpath, ?_, ?_, ?_, ?_, ?_⟩
  · rw [Tree.ancestor, List.take_zero, d.toTree.resolve_nil, if_pos h.has_root, Option.getD_some]
  · rw [← hlength]
    exact Tree.ancestor_length hresolve
  · exact fun j hj => h.parent?_ancestor hresolve (by omega)
  · exact fun j hj => h.ancestor_mem_walk hresolve (by omega)
  · rw [Outline.lead_snoc hpath, Outline.cells]
    congr 4
    refine List.map_congr_left fun j hj => ?_
    rw [Tree.ancestor_append (Nat.succ_le_of_lt (List.mem_range.mp hj))]

/-- In the tree of a tangled table an expression stands below the last statement. -/
theorem load_connectors_tangle : ∃ t, load tangle = .ok t ∧
    Outline.lead t 3 = "   └─ expression " ∧ Outline.lead t 1 = "├─ body[0] " ∧
    t.outline [] 9 = String.join (t.walk.map fun visit =>
      Outline.lead t visit.1 ++ Outline.describe t (t.resolve []) 9 visit.1 ++ "\n") :=
  ⟨_, rfl, by decide +kernel, by decide +kernel, (load_connectors tangle _ rfl [] 9).1⟩

end Document

end SyntaxLens

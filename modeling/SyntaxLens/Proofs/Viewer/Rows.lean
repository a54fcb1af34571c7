import SyntaxLens.Proofs.Tree.Descent
import SyntaxLens.Viewer.Model

/-! # Rows of the outline

The outline of a model is the walk of its tree with the children of collapsed nodes taken away
(`map_rows`).  So no node has two rows (`ids_rows_nodup`), and a node that the root reaches has one
if all nodes above it are expanded (`mem_ids_rows`).  Where a model begins, nothing is collapsed, and
the outline is the walk of the tree (`map_rows_ofTree`).

`Model.ancestors` climbs from parent to parent.  A node comes after everything above it in the walk
(`ancestors_subset`), so the climb ends before the size of the arena is used up
(`ancestors_of_parent?`) and never comes back to the node (`not_mem_ancestors`). -/

namespace SyntaxLens

theorem Node.children_ofEntries_nil (form : Form) : (ofEntries form []).children = [] := by
  rw [children, List.flatMap_eq_nil_iff]
  intro entry hmem
  obtain ⟨⟨r, a⟩, -, rfl⟩ := List.mem_map.mp hmem
  cases a <;> rfl

namespace Viewer

/-- Where a row stands: its node and the depth of it. -/
def Row.place (r : Row) : NodeId × ℕ := (r.id, r.depth)

namespace Model

variable (m : Model)

/-! ### The tree without what is collapsed -/

/-- The tree in which a node that is not expanded has no children. -/
def pruned : Tree :=
  .ofNodes (m.tree.nodes.mapIdx fun id n => if m.isExpanded id then n else .ofEntries n.form [])
    m.tree.root

theorem size_pruned : m.pruned.nodes.size = m.tree.nodes.size := Array.size_mapIdx

theorem fresh_pruned_iff {seen : List NodeId} {id : NodeId} :
    Tree.Fresh m.pruned.nodes seen id ↔ Tree.Fresh m.tree.nodes seen id := by
  rw [Tree.Fresh, Tree.Fresh, m.size_pruned]

theorem has_pruned (id : NodeId) : m.pruned.has id = m.tree.has id := by
  rw [Tree.has, Tree.has, m.size_pruned]

theorem children_pruned (id : NodeId) :
    m.pruned.children id = if m.isExpanded id then m.tree.children id else [] := by
  simp only [pruned, Tree.ofNodes, Tree.children, childrenAt, Array.getElem?_mapIdx]
  cases m.tree.nodes[id]? with
  | none => simp
  | some n => cases m.isExpanded id <;> simp [Node.children_ofEntries_nil]

/-! ### Rows as a descent -/

section descent
variable {m} {levels depth : ℕ} {segment : Option Segment} {id : NodeId} {seen : List NodeId}

theorem rowsFrom_of_not_fresh (h : ¬ Tree.Fresh m.tree.nodes seen id) :
    m.rowsFrom levels depth segment id seen = ([], seen) := by
  cases levels with
  | zero => rfl
  | succ levels =>
      rw [rowsFrom]
      split
      · rfl
      · rename_i n hn
        have hseen : id ∈ seen := by
          by_contra hseen
          exact h ⟨by simpa [Tree.has] using m.tree.has_of_node? hn, hseen⟩
        rw [if_pos (by simpa using hseen)]

theorem rowsFrom_of_fresh (levels depth : ℕ) (segment : Option Segment)
    (h : Tree.Fresh m.tree.nodes seen id) :
    ∃ n, m.rowsFrom (levels + 1) depth segment id seen =
      let below := rowsOfAll (fun s => m.rowsFrom levels (depth + 1) (some s))
        (if m.isExpanded id then m.tree.segments id else []) (id :: seen)
      (m.row depth segment id n :: below.1, below.2) := by
  obtain ⟨n, hn⟩ : ∃ n, m.tree.node? id = some n := ⟨_, Array.getElem?_eq_getElem h.1⟩
  refine ⟨n, ?_⟩
  have hexpanded : (m.row depth segment id n).expanded = m.isExpanded id := rfl
  rw [rowsFrom, hn]
  dsimp only
  rw [if_neg (by simpa using h.2), hexpanded]
  cases m.isExpanded id <;> rfl

theorem rowsOfAll_descends {below : Segment → NodeId → List NodeId → List Row × List NodeId}
    (hbelow : ∀ s id seen, (Tree.unseen m.tree.nodes seen).card ≤ levels →
      Tree.Descends m.pruned depth [id] seen ((below s id seen).1.map Row.place)
        (below s id seen).2) (children : List (Segment × NodeId)) :
    ∀ seen, (Tree.unseen m.tree.nodes seen).card ≤ levels →
      Tree.Descends m.pruned depth (children.map Prod.snd) seen
        ((rowsOfAll below children seen).1.map Row.place) (rowsOfAll below children seen).2 := by
  induction children with
  | nil => exact fun seen _ => .done depth seen
  | cons child rest ih =>
      intro seen hseen
      have hfirst := hbelow child.1 child.2 seen hseen
      have hrest := ih _ ((Tree.card_unseen_le m.tree.nodes hfirst.subset).trans hseen)
      rw [rowsOfAll, List.map_append]
      exact hfirst.append hrest

/-- With a level for every place unseen, the rows of a node are a descent. -/
theorem rowsFrom_descends (levels : ℕ) : ∀ (depth : ℕ) (segment : Option Segment) (id : NodeId)
    (seen : List NodeId), (Tree.unseen m.tree.nodes seen).card ≤ levels →
      Tree.Descends m.pruned depth [id] seen
        ((m.rowsFrom levels depth segment id seen).1.map Row.place)
        (m.rowsFrom levels depth segment id seen).2 := by
  induction levels with
  | zero =>
      intro depth segment id seen hseen
      have hf : ¬ Tree.Fresh m.tree.nodes seen id :=
        Tree.not_fresh_of_card_unseen m.tree.nodes hseen
      exact .skip (mt m.fresh_pruned_iff.mp hf) (.done depth seen)
  | succ levels ih =>
      intro depth segment id seen hseen
      by_cases hf : Tree.Fresh m.tree.nodes seen id
      · obtain ⟨n, hrows⟩ := rowsFrom_of_fresh levels depth segment hf
        have hcard := Tree.card_unseen_cons m.tree.nodes hf
        have hbelow := rowsOfAll_descends (fun s => ih (depth + 1) (some s))
          (if m.isExpanded id then m.tree.segments id else []) (id :: seen) (by omega)
        have hchildren : (if m.isExpanded id then m.tree.segments id else []).map Prod.snd =
            m.pruned.children id := by
          rw [children_pruned, ← m.tree.map_snd_segments]
          split <;> rfl
        rw [hchildren] at hbelow
        rw [hrows]
        simpa [Row.place, row] using
          Tree.Descends.visit (m.fresh_pruned_iff.mpr hf) hbelow (.done depth _)
      · rw [rowsFrom_of_not_fresh hf]
        exact .skip (mt m.fresh_pruned_iff.mp hf) (.done depth seen)

end descent

/-- The outline is the walk of the tree without what is collapsed. -/
theorem map_rows : m.rows.map Row.place = m.pruned.walk := by
  have hcard := Tree.card_unseen_nil m.tree.nodes
  exact (rowsFrom_descends m.tree.size 0 none m.tree.root [] hcard.le).eq_walk

theorem ids_rows : m.rows.map Row.id = m.pruned.order := by
  rw [Tree.order, ← map_rows, List.map_map]
  rfl

theorem ids_rows_nodup : (m.rows.map Row.id).Nodup := m.ids_rows ▸ m.pruned.order_nodup

/-- Where nothing is collapsed the outline is the walk of the tree. -/
theorem map_rows_ofTree (t : Tree) : (ofTree t).rows.map Row.place = t.walk := by
  obtain ⟨after, h⟩ := t.descends_walk
  have hpruned : Tree.Descends (ofTree t).pruned 0 [t.root] [] t.walk after := by
    refine h.congr (size_pruned _) fun id hid => ?_
    have hexpanded : (ofTree t).isExpanded id = true := by simp [isExpanded, ofTree, hid]
    rw [children_pruned, if_pos hexpanded]
  rw [map_rows, ← hpruned.eq_walk]

/-! ### The nodes above a node -/

section ancestors
variable {m} {before after : List NodeId} {id : NodeId}

theorem ancestorsFrom_append (steps : ℕ) : ∀ (id : NodeId) (below : List NodeId),
    m.ancestorsFrom steps id below = m.ancestorsFrom steps id [] ++ below := by
  induction steps with
  | zero => exact fun _ _ => rfl
  | succ steps ih =>
      intro id below
      rw [ancestorsFrom, ancestorsFrom]
      cases m.tree.parent? id with
      | none => rfl
      | some parent =>
          dsimp only
          rw [ih parent (parent :: below), ih parent [parent], List.append_assoc]
          rfl

/-- What is above a node depends on the tree only. -/
theorem ancestors_congr {m' : Model} (h : m.tree = m'.tree) (id : NodeId) :
    m.ancestors id = m'.ancestors id := by
  have hfrom : ∀ (steps : ℕ) (id : NodeId) (below : List NodeId),
      m.ancestorsFrom steps id below = m'.ancestorsFrom steps id below := by
    intro steps
    induction steps with
    | zero => exact fun _ _ => rfl
    | succ steps ih =>
        intro id below
        rw [ancestorsFrom, ancestorsFrom, h]
        split
        · exact ih _ _
        · rfl
  rw [ancestors, ancestors, h, hfrom]

theorem ancestorsFrom_root (steps : ℕ) : m.ancestorsFrom steps m.tree.root [] = [] := by
  cases steps with
  | zero => rfl
  | succ steps => rw [ancestorsFrom, m.tree.parent?_root]

theorem ancestorsFrom_succ {parent : NodeId} (h : m.tree.parent? id = some parent) (steps : ℕ) :
    m.ancestorsFrom (steps + 1) id [] = m.ancestorsFrom steps parent [] ++ [parent] := by
  rw [ancestorsFrom, h]
  exact ancestorsFrom_append steps parent [parent]

/-- Steps beyond the number of nodes that come before a node in the walk change nothing. -/
theorem ancestorsFrom_eq (h : id ∈ m.tree.order) (horder : m.tree.order = before ++ id :: after)
    (steps steps' : ℕ) (hsteps : before.length ≤ steps) (hsteps' : before.length ≤ steps') :
    m.ancestorsFrom steps id [] = m.ancestorsFrom steps' id [] := by
  induction h using m.tree.parent_induction generalizing before after steps steps' with
  | root _ => rw [ancestorsFrom_root, ancestorsFrom_root]
  | child _ _ hparent _ ih =>
      obtain ⟨earlier, later, rfl, hsplit⟩ := m.tree.order_of_parent? horder hparent
      rw [List.length_append, List.length_cons] at hsteps hsteps'
      obtain ⟨steps, rfl⟩ : ∃ k, steps = k + 1 := ⟨steps - 1, by omega⟩
      obtain ⟨steps', rfl⟩ : ∃ k, steps' = k + 1 := ⟨steps' - 1, by omega⟩
      rw [ancestorsFrom_succ hparent, ancestorsFrom_succ hparent,
        ih hsplit steps steps' (by omega) (by omega)]

theorem ancestors_root : m.ancestors m.tree.root = [] := ancestorsFrom_root m.tree.size

/-- Above a node that is reached there are its parent and what is above that. -/
theorem ancestors_of_parent? {p : NodeId} (h : id ∈ m.tree.order)
    (hparent : m.tree.parent? id = some p) : m.ancestors id = m.ancestors p ++ [p] := by
  obtain ⟨before, after, horder⟩ := List.append_of_mem h
  have hlen := m.tree.length_order_le
  obtain ⟨earlier, later, rfl, hsplit⟩ := m.tree.order_of_parent? horder hparent
  rw [hsplit, List.length_append, List.length_cons, List.length_append] at hlen
  have hp : p ∈ m.tree.order := by simp [hsplit]
  obtain ⟨size, hsize⟩ : ∃ k, m.tree.size = k + 1 := ⟨m.tree.size - 1, by omega⟩
  rw [ancestors, ancestors, hsize, ancestorsFrom_succ hparent,
    ancestorsFrom_eq hp hsplit size (size + 1) (by omega) (by omega)]

/-- What is above a node comes before it in the walk. -/
theorem ancestors_subset (h : id ∈ m.tree.order)
    (horder : m.tree.order = before ++ id :: after) : m.ancestors id ⊆ before := by
  induction h using m.tree.parent_induction generalizing before after with
  | root _ =>
      rw [ancestors_root]
      exact List.nil_subset before
  | child hid _ hparent _ ih =>
      obtain ⟨earlier, later, rfl, hsplit⟩ := m.tree.order_of_parent? horder hparent
      rw [ancestors_of_parent? hid hparent]
      exact List.append_subset.mpr ⟨List.subset_append_of_subset_left _ (ih hsplit), by simp⟩

/-- No node is above itself. -/
theorem not_mem_ancestors (h : id ∈ m.tree.order) : id ∉ m.ancestors id := by
  obtain ⟨before, after, horder⟩ := List.append_of_mem h
  have hnodup := m.tree.order_nodup
  rw [horder] at hnodup
  exact fun hmem => List.disjoint_of_nodup_append hnodup (ancestors_subset h horder hmem)
    List.mem_cons_self

/-- A node below expanded nodes only has a row. -/
theorem mem_ids_rows (h : id ∈ m.tree.order) (habove : ∀ a ∈ m.ancestors id, m.isExpanded a) :
    id ∈ m.rows.map Row.id := by
  have hhas : ∀ id ∈ m.tree.order, m.pruned.has id := fun id hid =>
    m.has_pruned id ▸ m.tree.has_of_mem_order hid
  rw [ids_rows]
  induction h using m.tree.parent_induction with
  | root hroot => exact m.pruned.root_mem_order (hhas _ hroot)
  | child hid _ hparent hchild ih =>
      rw [ancestors_of_parent? hid hparent, List.forall_mem_append, List.forall_mem_singleton]
        at habove
      refine m.pruned.mem_order_of_child (ih habove.1) ?_ (hhas _ hid)
      rw [children_pruned, if_pos habove.2]
      exact hchild

end ancestors

end Model

end Viewer

end SyntaxLens

import SyntaxLens.Proofs.Format.Connectors
import SyntaxLens.Proofs.Tree.Unfolding
import SyntaxLens.Proofs.Viewer.Following
import SyntaxLens.Proofs.Viewer.Reveal

/-! # Rows and expanded nodes

Whatever is expanded and collapsed, the outline of a loaded tree has one row for every node below
expanded nodes only, in the order of a walk, and each row can be told from the path of its node
(`Model.visible_rows`).

* **Above.**  The chain of parents of a node is made of the nodes at the proper prefixes of its path
  (`Model.ancestors_eq_map`).
* **Nodes.**  In a strict tree a walk goes into all children.  Taking away the children of collapsed
  nodes leaves the nodes that are visible: below a visible node that is expanded the children are
  visible, and below one that is collapsed nothing is (`Model.unfolds_pruned`).
* **Rows.**  The descent carries a depth and the last segment down, as the path of a node has them
  (`Model.eq_row_of_mem_rowsFrom`). -/

namespace SyntaxLens.Viewer.Model

variable (m : Model)

/-- All nodes above a node are expanded. -/
def isVisible (id : NodeId) : Bool := (m.ancestors id).all m.isExpanded

variable {m} (h : m.tree.Strict)
include h

/-! ### The nodes above a node -/

theorem ancestors_child {owner id : NodeId} (hchild : id ∈ m.tree.children owner) :
    m.ancestors id = m.ancestors owner ++ [owner] :=
  ancestors_of_parent? (h.mem_order (h.owner_lt owner id hchild).2) (h.parent?_eq hchild)

theorem ancestors_eq_map {p : Path} : ∀ {id : NodeId}, m.tree.pathOf? id = some p →
    m.ancestors id = (List.range p.length).map (m.tree.ancestor p) := by
  induction p using List.reverseRecOn with
  | nil =>
      intro id hp
      have hroot : m.tree.resolve [] = some id := m.tree.resolve_of_pathOf? hp
      rw [m.tree.resolve_nil, if_pos h.has_root] at hroot
      obtain rfl := Option.some.inj hroot
      exact ancestors_root
  | append_singleton p s ih =>
      intro id hp
      have hid := m.tree.resolve_of_pathOf? hp
      rw [m.tree.resolve_snoc] at hid
      obtain ⟨owner, howner, hstep⟩ := Option.bind_eq_some_iff.mp hid
      have hlast : m.tree.ancestor (p ++ [s]) p.length = owner := by
        rw [Tree.ancestor_append le_rfl, Tree.ancestor_length howner]
      have habove : (List.range p.length).map (m.tree.ancestor (p ++ [s])) =
          (List.range p.length).map (m.tree.ancestor p) :=
        List.map_congr_left fun k hk =>
          Tree.ancestor_append (List.mem_range.mp hk).le [s]
      rw [ancestors_child h (m.tree.mem_children_of_step? hstep),
        ih ((h.resolve_eq_some_iff p owner).mp howner), List.length_append, List.length_singleton,
        List.range_succ, List.map_append, List.map_singleton, hlast, habove]

/-- Above a node are the nodes at the proper prefixes of its path. -/
theorem map_some_ancestors {p : Path} {id : NodeId} (hp : m.tree.pathOf? id = some p) :
    (m.ancestors id).map some = (List.range p.length).map fun k => m.tree.resolve (p.take k) := by
  rw [ancestors_eq_map h hp, List.map_map]
  exact List.map_congr_left fun k _ =>
    (Tree.resolve_take (m.tree.resolve_of_pathOf? hp) k).symm

/-! ### Nodes -/

theorem isVisible_child {owner id : NodeId} (hchild : id ∈ m.tree.children owner) :
    m.isVisible id = (m.isVisible owner && m.isExpanded owner) := by
  simp [isVisible, ancestors_child h hchild]

/-- What is above some nodes is above all nodes below them. -/
theorem mem_ancestors_of_unfolds {a : NodeId} {depth : ℕ} {ids : List NodeId}
    {out : List (NodeId × ℕ)} (hu : m.tree.Unfolds depth ids out)
    (hids : ∀ id ∈ ids, a ∈ m.ancestors id) : ∀ v ∈ out, a ∈ m.ancestors v.1 := by
  induction hu with
  | nil => simp
  | @cons id depth ids inner out _ _ ihin ih =>
      obtain ⟨hid, hids⟩ := List.forall_mem_cons.mp hids
      have hchildren : ∀ c ∈ m.tree.children id, a ∈ m.ancestors c := by
        intro c hc
        rw [ancestors_child h hc]
        exact List.mem_append_left _ hid
      rw [List.forall_mem_cons, List.forall_mem_append]
      exact ⟨hid, ihin hchildren, ih hids⟩

/-- Without the children of collapsed nodes there are the visible nodes left. -/
theorem unfolds_pruned {depth : ℕ} {ids : List NodeId} {out : List (NodeId × ℕ)}
    (hu : m.tree.Unfolds depth ids out) (hids : ∀ id ∈ ids, m.isVisible id) :
    m.pruned.Unfolds depth ids (out.filter fun v => m.isVisible v.1) := by
  induction hu with
  | nil depth => exact .nil depth
  | @cons id depth ids inner out hin _ ihin ih =>
      obtain ⟨hid, hids⟩ := List.forall_mem_cons.mp hids
      rw [List.filter_cons, if_pos hid, List.filter_append]
      refine .cons ?_ (ih hids)
      rw [children_pruned]
      cases hexpanded : m.isExpanded id with
      | true =>
          refine ihin fun c hc => ?_
          rw [isVisible_child h hc, hid, hexpanded]
          rfl
      | false =>
          have hbelow : ∀ v ∈ inner, id ∈ m.ancestors v.1 := by
            refine mem_ancestors_of_unfolds h hin fun c hc => ?_
            rw [ancestors_child h hc]
            exact List.mem_append_right _ List.mem_cons_self
          have hnone : (inner.filter fun v => m.isVisible v.1) = [] := by
            rw [List.filter_eq_nil_iff]
            intro v hv hvisible
            have := List.all_eq_true.mp hvisible id (hbelow v hv)
            rw [hexpanded] at this
            cases this
          rw [hnone]
          exact .nil _

/-- The outline is the walk of the tree without the nodes that cannot be seen. -/
theorem map_rows_eq_filter :
    m.rows.map Row.place = m.tree.walk.filter fun v => m.isVisible v.1 := by
  have hroot : ∀ id ∈ [m.tree.root], m.isVisible id := by
    rw [List.forall_mem_singleton, isVisible, ancestors_root]
    rfl
  have hsub : ((m.tree.walk.filter fun v => m.isVisible v.1).map Prod.fst).Sublist m.tree.order :=
    List.filter_sublist.map Prod.fst
  rw [map_rows]
  refine (Tree.Unfolds.eq_walk (unfolds_pruned h h.unfolds hroot) ?_ fun id hid => ?_).symm
  · exact hsub.nodup m.tree.order_nodup
  · rw [has_pruned]
    exact m.tree.has_of_mem_order (hsub.subset hid)

theorem ids_rows_eq_filter : m.rows.map Row.id = m.tree.order.filter m.isVisible := by
  have hplaces := congrArg (List.map Prod.fst) (map_rows_eq_filter h)
  rw [List.map_map] at hplaces
  refine hplaces.trans ?_
  rw [Tree.order, List.filter_map]
  rfl

/-! ### Rows -/

omit h in
theorem exists_of_mem_rowsOfAll
    {below : Segment → NodeId → List NodeId → List Row × List NodeId} {r : Row}
    {children : List (Segment × NodeId)} : ∀ {seen : List NodeId},
    r ∈ (rowsOfAll below children seen).1 →
      ∃ s id seen', (s, id) ∈ children ∧ r ∈ (below s id seen').1 := by
  induction children with
  | nil => exact fun hr => absurd hr List.not_mem_nil
  | cons child rest ih =>
      intro seen hr
      rw [rowsOfAll, List.mem_append] at hr
      rcases hr with hr | hr
      · exact ⟨child.1, child.2, seen, List.mem_cons_self, hr⟩
      · obtain ⟨s, id, seen', hmem, hr⟩ := ih hr
        exact ⟨s, id, seen', List.mem_cons_of_mem _ hmem, hr⟩

/-- Depth and segment of a row are the length of the path of its node and the last segment. -/
theorem eq_row_of_mem_rowsFrom (levels : ℕ) : ∀ {id : NodeId} {p : Path} {seen : List NodeId}
    {r : Row}, m.tree.pathOf? id = some p →
      r ∈ (m.rowsFrom levels p.length p.getLast? id seen).1 →
      ∃ q n, m.tree.pathOf? r.id = some q ∧ r = m.row q.length q.getLast? r.id n := by
  induction levels with
  | zero => exact fun _ hr => absurd hr List.not_mem_nil
  | succ levels ih =>
      intro id p seen r hp hr
      rw [rowsFrom] at hr
      split at hr
      · cases hr
      · rename_i n hn
        split at hr
        · cases hr
        · rcases List.mem_cons.mp hr with rfl | hr
          · exact ⟨p, n, hp, rfl⟩
          · split at hr
            · obtain ⟨s, c, seen', hmem, hr⟩ := exists_of_mem_rowsOfAll hr
              refine ih (Outline.pathOf?_snoc h hp hmem)
                (?_ : r ∈ (m.rowsFrom levels _ _ c seen').1)
              rwa [List.length_append, List.length_singleton, List.getLast?_concat]
            · cases hr

theorem eq_row_of_mem_rows {r : Row} (hr : r ∈ m.rows) :
    ∃ p n, m.tree.pathOf? r.id = some p ∧ r = m.row p.length p.getLast? r.id n :=
  eq_row_of_mem_rowsFrom h m.tree.size (p := []) (m.tree.pathOf?_root h.has_root) hr

omit h in
theorem hasChildren_row (depth : ℕ) (segment : Option Segment) (id : NodeId) (n : Node) :
    (m.row depth segment id n).hasChildren = true ↔ ∃ c, c ∈ m.tree.children id := by
  rw [← List.isEmpty_eq_false_iff_exists_mem, ← m.tree.map_snd_segments, List.isEmpty_map, row,
    Bool.not_eq_true']

omit h

/-! ### Changes of a model -/

/-- What can be done to a model. -/
inductive Action where
  | toggle (id : NodeId)
  | expand (ids : List NodeId)
  | collapse (id : NodeId)
  | move (d : Direction)
  | focusOn (id : NodeId)
  | replace (t : Tree)

def perform (m : Model) : Action → Model
  | .toggle id => m.toggle id
  | .expand ids => m.expand ids
  | .collapse id => m.collapse id
  | .move d => (m.move d).1
  | .focusOn id => (m.focusOn id).1
  | .replace t => .ofTree t

theorem strict_perform (h : m.tree.Strict) {a : Action}
    (hnew : ∀ u, a = .replace u → u.Strict) : (m.perform a).tree.Strict := by
  cases a with
  | toggle id => exact (m.tree_toggle id).symm ▸ h
  | expand ids => exact h
  | collapse id => exact h
  | move d => exact (m.tree_move d).symm ▸ h
  | focusOn id => exact (m.tree_focusOn id).symm ▸ h
  | replace u => exact hnew u rfl

theorem strict_actions (h : m.tree.Strict) {actions : List Action}
    (hnew : ∀ u, Action.replace u ∈ actions → u.Strict) :
    (actions.foldl perform m).tree.Strict := by
  refine List.foldlRecOn (motive := fun m => m.tree.Strict) actions perform h
    fun m hm a ha => strict_perform hm ?_
  rintro u rfl
  exact hnew u ha

/-- Whatever is done to a model of a loaded tree, its outline lists exactly the nodes that have only
expanded nodes above them, each once, in the order of the walk; the root always counts as expanded.
Above a node are the nodes at the proper prefixes of its path, the root first.  The depth of a row
is the number of nodes above its node, its segment is the last one of the path, and it is said to
have children if a child of its node is present. -/
theorem visible_rows (json : Json) (t : Tree) (hload : Document.load json = .ok t)
    (actions : List Action)
    (hnew : ∀ u, Action.replace u ∈ actions → ∃ json, Document.load json = .ok u) :
    let m := actions.foldl perform (.ofTree t)
    m.rows.map Row.id =
      m.tree.order.filter (fun id => (m.ancestors id).all fun a => m.isExpanded a) ∧
    (m.rows.map Row.id).Nodup ∧
    m.isExpanded m.tree.root ∧
    (∀ id, m.tree.has id → ∃ p, m.tree.pathOf? id = some p ∧
      (m.ancestors id).map some = (List.range p.length).map fun k => m.tree.resolve (p.take k)) ∧
    ∀ r ∈ m.rows, r.depth = (m.ancestors r.id).length ∧
      (∃ p, m.tree.pathOf? r.id = some p ∧ r.segment = p.getLast?) ∧
      r.expanded = m.isExpanded r.id ∧
      (r.hasChildren = true ↔ ∃ c, c ∈ m.tree.children r.id) := by
  intro m
  have h : m.tree.Strict := by
    refine strict_actions (Document.strict_of_load hload) fun u hu => ?_
    obtain ⟨json', hu⟩ := hnew u hu
    exact Document.strict_of_load hu
  refine ⟨ids_rows_eq_filter h, m.ids_rows_nodup, by simp [isExpanded], fun id hhas => ?_,
    fun r hr => ?_⟩
  · obtain ⟨p, hp, -⟩ := m.tree.pathOf?_of_mem_order (h.mem_order hhas)
    exact ⟨p, hp, map_some_ancestors h hp⟩
  obtain ⟨p, n, hp, hrow⟩ := eq_row_of_mem_rows h hr
  have hdepth : r.depth = p.length := by rw [hrow]; rfl
  refine ⟨?_, ⟨p, hp, by rw [hrow]; rfl⟩, by rw [hrow]; rfl, ?_⟩
  · rw [hdepth, ancestors_eq_map h hp, List.length_map, List.length_range]
  · rw [hrow]
    exact hasChildren_row _ _ _ n

/-- Rows are folded, some of nodes that are not there; a tree takes the place of another, and the
first statement is collapsed after its expression was in focus. -/
def foldings (t : Tree) : List Action :=
  [.toggle 1, .collapse 0, .collapse 9, .replace t, .focusOn 2, .toggle 7, .collapse 1]

theorem visible_rows_folded : ∃ t, Document.load App.leaflet = .ok t ∧
    let m := (foldings t).foldl perform (.ofTree t)
    m.rows.map Row.id = [0, 1, 3] ∧ (m.ancestors 2).map some = [t.resolve [], some 1] ∧
      ∀ r ∈ m.rows, r.depth = (m.ancestors r.id).length := by
  have hnew (t : Tree) (ht : Document.load App.leaflet = .ok t) :
      ∀ u, Action.replace u ∈ foldings t → ∃ json, Document.load json = .ok u := by
    intro u hu
    obtain rfl : u = t := by simpa [foldings] using hu
    exact ⟨App.leaflet, ht⟩
  refine ⟨_, rfl, ?_⟩
  intro m
  obtain ⟨hids, -, -, habove, hrows⟩ :=
    visible_rows App.leaflet _ rfl (foldings _) (hnew _ rfl)
  refine ⟨hids.trans (by decide +kernel), ?_, fun r hr => (hrows r hr).1⟩
  have hpath : m.tree.pathOf? 2 = some [⟨"body", some 0⟩, ⟨"expression", none⟩] := by
    decide +kernel
  obtain ⟨p, hp, habove⟩ := habove 2 (by decide +kernel)
  obtain rfl := Option.some.inj (hp.symm.trans hpath)
  rw [habove]
  decide +kernel

end SyntaxLens.Viewer.Model

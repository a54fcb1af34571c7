import SyntaxLens.Proofs.Focus.Moves
import SyntaxLens.Proofs.Viewer.Rows
import SyntaxLens.Viewer.App

/-! # The row of the focus

The node in focus has a row in the outline, whatever is pressed, read again or received
(`focused_row`).

What carries this is `Model.Revealed`: all nodes above the focus are expanded.  Changes of the focus
expand these nodes.  Only the node in focus itself is ever collapsed, from the outline pane
(`OutlinePane.focused?_of_event`), and no node is above itself. -/

namespace SyntaxLens.Viewer

namespace Model

variable (m : Model)

theorem isExpanded_expand (ids : List NodeId) (id : NodeId) :
    (m.expand ids).isExpanded id = (m.isExpanded id || ids.contains id) := by
  rw [Bool.eq_iff_iff]
  simp only [isExpanded, expand, tree, Bool.or_eq_true, beq_iff_eq, List.contains_iff_mem,
    List.mem_append, List.mem_filter]
  by_cases h : id ∈ m.expanded <;> simp [h]

theorem isExpanded_collapse {id other : NodeId} (h : other ≠ id) :
    (m.collapse id).isExpanded other = m.isExpanded other := by
  rw [Bool.eq_iff_iff]
  simp [isExpanded, collapse, tree, h]

theorem ancestors_expand (ids : List NodeId) (id : NodeId) :
    (m.expand ids).ancestors id = m.ancestors id :=
  ancestors_congr (show (m.expand ids).tree = m.tree from rfl) id

theorem ancestors_collapse (id other : NodeId) :
    (m.collapse id).ancestors other = m.ancestors other :=
  ancestors_congr (show (m.collapse id).tree = m.tree from rfl) other

/-- The focus is on a node, and all nodes above it are expanded. -/
structure Revealed (m : Model) : Prop where
  sound : m.focus.Sound
  expanded : ∀ id, m.focused? = some id → ∀ a ∈ m.ancestors id, m.isExpanded a

variable {m}

theorem revealed_of_focused? {id : NodeId} (h : m.focus.Sound) (hid : m.focused? = some id)
    (habove : ∀ a ∈ m.ancestors id, m.isExpanded a) : m.Revealed where
  sound := h
  expanded id' hid' := by
    obtain rfl := Option.some.inj (hid'.symm.trans hid)
    exact habove

theorem revealed_ofTree {t : Tree} (h : t.Closed) : (ofTree t).Revealed := by
  have hroot : (ofTree t).focused? = some t.root := if_pos h.has_root
  have hnone : (ofTree t).ancestors t.root = [] := ancestors_root
  refine revealed_of_focused? (Focus.sound_ofTree h) hroot fun a ha => ?_
  rw [hnone] at ha
  cases ha

theorem revealed_reveal (h : m.focus.Sound) : m.reveal.Revealed := by
  obtain ⟨id, hid⟩ : ∃ id, m.focused? = some id := Option.isSome_iff_exists.mp h.resolves
  have hreveal : m.reveal = m.expand (m.ancestors id) := by rw [reveal, hid]
  rw [hreveal]
  refine revealed_of_focused? h hid fun a ha => ?_
  rw [ancestors_expand] at ha
  have hmem : (m.ancestors id).contains a = true := List.contains_iff_mem.mpr ha
  rw [isExpanded_expand, hmem, Bool.or_true]

namespace Revealed

variable (h : m.Revealed)
include h

theorem move (d : Direction) : (m.move d).1.Revealed := by
  unfold Model.move
  dsimp only
  split
  · exact revealed_reveal (h.sound.move d)
  · exact h

theorem focusOn (id : NodeId) : (m.focusOn id).1.Revealed := by
  unfold Model.focusOn
  dsimp only
  split
  · exact revealed_reveal (h.sound.setNode id)
  · exact h

/-- The node in focus can be collapsed, since it is not above itself. -/
theorem toggle {id : NodeId} (hid : m.focused? = some id) : (m.toggle id).Revealed := by
  have habove := h.expanded id hid
  unfold Model.toggle
  split
  · refine revealed_of_focused? h.sound hid fun a ha => ?_
    rw [ancestors_collapse] at ha
    have hne : a ≠ id := by
      rintro rfl
      exact not_mem_ancestors (m.tree.mem_order_of_resolve hid) ha
    rw [isExpanded_collapse m hne]
    exact habove a ha
  · refine revealed_of_focused? h.sound hid fun a ha => ?_
    rw [ancestors_expand] at ha
    rw [isExpanded_expand, habove a ha, Bool.true_or]

/-- The node in focus has one row. -/
theorem count_rows : ∃ id, m.focused? = some id ∧ (m.tree.node? id).isSome ∧
    (m.rows.map Row.id).count id = 1 := by
  obtain ⟨id, hid⟩ : ∃ id, m.focused? = some id := Option.isSome_iff_exists.mp h.sound.resolves
  have horder : id ∈ m.tree.order := m.tree.mem_order_of_resolve hid
  refine ⟨id, hid, (m.tree.isSome_node?_iff id).mpr (m.tree.has_of_mem_order horder), ?_⟩
  exact List.count_eq_one_of_mem m.ids_rows_nodup (mem_ids_rows horder (h.expanded id hid))

end Revealed

end Model

/-! ### What panes ask for -/

theorem Event.exists_of_getD {α : Type} {f : α → Event} {asked : Option α} {e : Event}
    (h : (asked.map f).getD .none = e) (he : e ≠ .none) : ∃ x, asked = some x ∧ f x = e := by
  cases asked with
  | none => exact absurd h.symm he
  | some x => exact ⟨x, rfl, h⟩

theorem CodePane.event_ne_toggle (key : Key) (id : NodeId) : event key ≠ .toggle id := by
  intro h
  unfold event at h
  split at h
  · cases h
  · cases h
  · obtain ⟨d, -, hd⟩ := Event.exists_of_getD h (by simp)
    cases hd

/-- The outline pane asks to collapse the node in focus only. -/
theorem OutlinePane.focused?_of_event {m : Model} {key : Key} {id : NodeId}
    (h : event m key = .toggle id) : m.focused? = some id := by
  unfold event at h
  dsimp only at h
  split at h
  all_goals obtain ⟨x, hx, h⟩ := Event.exists_of_getD h (by simp)
  · cases h
  · cases h
  · obtain rfl := Event.toggle.inj h
    exact hx
  · obtain rfl := Event.toggle.inj h
    exact hx
  · cases h

/-! ### Runs of the viewer -/

/-- What happens to a viewer: a key, a wish to read the source again, a snapshot.  Files may change
in between. -/
inductive Occurrence where
  | key (files : Files) (k : KeyPress)
  | reload (files : Files)
  | snapshot (t : Tree)

namespace App

variable {a : App}

theorem focused?_of_event {key : Key} {id : NodeId} (h : a.event key = .toggle id) :
    a.model.focused? = some id := by
  unfold event at h
  split at h
  · exact absurd h (CodePane.event_ne_toggle key id)
  · exact OutlinePane.focused?_of_event h

/-- The viewer after an occurrence. -/
def after (a : App) : Occurrence → App
  | .key files k => (a.press files k).1
  | .reload files => a.reload files
  | .snapshot t => a.snapshot t

theorem revealed_apply (h : a.model.Revealed) {e : Event}
    (htoggle : ∀ id, e = .toggle id → a.model.focused? = some id) :
    (a.apply e).model.Revealed := by
  cases e with
  | move d =>
      rw [apply]
      dsimp only
      split
      · exact h.move d
      · exact h
  | select id => exact h.focusOn id
  | toggle id => exact h.toggle (htoggle id rfl)
  | none => exact h

theorem revealed_reload (h : a.model.Revealed) (files : Files) :
    (a.reload files).model.Revealed := by
  unfold reload
  split
  · exact h
  · split
    · rename_i t ht
      exact Model.revealed_ofTree (Tree.closed_of_loadFile ht)
    · exact h

theorem revealed_press (h : a.model.Revealed) (files : Files) (k : KeyPress) :
    (a.press files k).1.model.Revealed := by
  unfold press
  split_ifs
  · exact h
  · exact h
  · exact revealed_reload h files
  · exact revealed_apply h fun id => focused?_of_event

theorem revealed_after (h : a.model.Revealed) {o : Occurrence}
    (hsnapshot : ∀ t, o = .snapshot t → t.Closed) : (a.after o).model.Revealed := by
  cases o with
  | key files k => exact revealed_press h files k
  | reload files => exact revealed_reload h files
  | snapshot t => exact Model.revealed_ofTree (hsnapshot t rfl)

theorem revealed_run (h : a.model.Revealed) {occurrences : List Occurrence}
    (hsnapshots : ∀ t, Occurrence.snapshot t ∈ occurrences → t.Closed) :
    (occurrences.foldl after a).model.Revealed := by
  refine List.foldlRecOn (motive := fun a => a.model.Revealed) occurrences after h
    fun a ha o ho => revealed_after ha ?_
  rintro t rfl
  exact hsnapshots t ho

/-- After everything that happens to a viewer that began with a tree that was loaded, there is a
node in focus, and it has exactly one row in the outline.  Rows may have been collapsed and expanded
in between.  The trees of snapshots are closed, as all trees that are loaded
(`Tree.closed_of_load`). -/
theorem focused_row (json : Json) (t : Tree) (hload : Document.load json = .ok t)
    (settings : Settings) (source : Option String) (occurrences : List Occurrence)
    (hsnapshots : ∀ u, Occurrence.snapshot u ∈ occurrences → u.Closed) :
    let m := (occurrences.foldl after (.start (.ofTree t) settings source)).model
    ∃ id, m.focused? = some id ∧ (m.tree.node? id).isSome ∧ (m.rows.map Row.id).count id = 1 :=
  (revealed_run (Model.revealed_ofTree (Tree.closed_of_load hload)) hsnapshots).count_rows

/-- A program of two statements, one with something below it. -/
def leaflet : Json := .object [("type", .string "Program"), ("body", .array [
  .object [("type", .string "ExpressionStatement"),
    ("expression", .object [("type", .string "ThisExpression")])],
  .object [("type", .string "EmptyStatement")]])]

/-- A snapshot comes, the row behind its root is collapsed, and the source is gone. -/
def folding (t : Tree) : List Occurrence :=
  let files : Files := fun _ => .error .missing
  [.snapshot t, .key files ⟨.tab, false⟩, .key files ⟨.down, false⟩, .key files ⟨.enter, false⟩,
    .key files ⟨.char 'r', false⟩]

theorem focused_row_folding : ∃ t, Document.load leaflet = .ok t ∧
    let m := ((folding t).foldl after
      (.start (.ofTree t) ⟨"ast", "  ", 24, 40, false, 250, "info"⟩ (some "a.json"))).model
    m.focused? = some 1 ∧ m.rows.map Row.expanded = [true, false, true] ∧
      (m.rows.map Row.id).count 1 = 1 := by
  refine ⟨_, rfl, ?_⟩
  have hclosed := Tree.closed_of_load (show Document.load leaflet = .ok _ from rfl)
  obtain ⟨id, hid, -, hcount⟩ := focused_row leaflet _ rfl
    ⟨"ast", "  ", 24, 40, false, 250, "info"⟩ (some "a.json") (folding _) (by simpa [folding])
  obtain rfl : id = 1 := Option.some.inj (hid.symm.trans (by decide +kernel))
  exact ⟨hid, by decide +kernel, hcount⟩

end App

end SyntaxLens.Viewer

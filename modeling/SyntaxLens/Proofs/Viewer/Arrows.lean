import SyntaxLens.Proofs.Viewer.Replacement
import SyntaxLens.Proofs.Viewer.Visible

/-! # Arrow keys in the outline

With the outline pane in use, the arrow keys put the focus on the row behind or before it, and the
rows stay as they are; at the ends of the outline they do nothing (`App.arrows_walk_rows`).

* A row stands below expanded nodes only, so nothing has to be expanded when its node comes into
  focus (`Model.focusOn_of_mem_rows`).  The tree has to be strict for this: the nodes above a node
  are then the ones that its row stands below.
* No node has two rows, so the row of the focus is the one that is found
  (`Model.FocusAt.focusRow?`). -/

namespace SyntaxLens.Viewer

namespace Model

variable {m m' : Model} {i : ℕ}

/-! ### Rows when the focus changes -/

/-- The rows depend on the tree and on what is expanded in it. -/
theorem rows_congr (htree : m.tree = m'.tree) (hexpanded : m.isExpanded = m'.isExpanded) :
    m.rows = m'.rows := by
  have hrow : m.row = m'.row := by
    funext depth segment id n
    rw [row, row, htree, hexpanded]
  have hfrom : ∀ levels, m.rowsFrom levels = m'.rowsFrom levels := by
    intro levels
    induction levels with
    | zero => rfl
    | succ levels ih =>
        funext depth segment id seen
        rw [rowsFrom, rowsFrom, htree, hrow, ih]
  rw [rows, rows, htree, hfrom]

theorem rows_expand {ids : List NodeId} (h : ∀ id ∈ ids, m.isExpanded id) :
    (m.expand ids).rows = m.rows := by
  refine rows_congr rfl (funext fun id => ?_)
  rw [isExpanded_expand]
  by_cases hid : id ∈ ids
  · rw [h id hid, Bool.true_or]
  · rw [List.contains_eq_mem, decide_eq_false hid, Bool.or_false]

/-- A node that has a row comes into focus, and the rows stay as they are. -/
theorem focusOn_of_mem_rows (h : m.tree.Strict) {id : NodeId} (hid : id ∈ m.rows.map Row.id) :
    (m.focusOn id).1.rows = m.rows ∧ (m.focusOn id).1.focused? = some id := by
  rw [ids_rows_eq_filter h, List.mem_filter] at hid
  obtain ⟨horder, hvisible⟩ := hid
  obtain ⟨p, hp, hresolve⟩ := m.tree.pathOf?_of_mem_order horder
  have hset : m.focus.setNode id = (⟨m.tree, p⟩, true) := by
    have := m.tree.setNode_eq m.path id
    rwa [hp] at this
  have hfocus : (m.focusOn id).1 = ({ m with focus := ⟨m.tree, p⟩ } : Model).expand
      (m.ancestors id) := by
    have hfocused : ({ m with focus := ⟨m.tree, p⟩ } : Model).focused? = some id := hresolve
    rw [focusOn, hset]
    dsimp only
    rw [if_pos rfl, reveal, hfocused]
    refine congrArg (expand _) (ancestors_congr ?_ id)
    rfl
  rw [hfocus]
  refine ⟨(rows_expand ?_).trans (rows_congr rfl rfl), hresolve⟩
  exact List.all_eq_true.mp hvisible

/-! ### The row of the focus -/

/-- The node in focus is that of a row. -/
def FocusAt (m : Model) (i : ℕ) : Prop := ∃ r, m.rows[i]? = some r ∧ m.focused? = some r.id

theorem FocusAt.lt (h : m.FocusAt i) : i < m.rows.length := by
  obtain ⟨r, hr, -⟩ := h
  exact (List.getElem?_eq_some_iff.mp hr).1

theorem FocusAt.focused?_eq (h : m.FocusAt i) : m.focused? = (m.rows[i]?).map Row.id := by
  obtain ⟨r, hr, hfocus⟩ := h
  rw [hr, hfocus]
  rfl

theorem FocusAt.focusRow? (h : m.FocusAt i) : OutlinePane.focusRow? m = some i := by
  obtain ⟨r, hr, hfocus⟩ := h
  obtain ⟨hlt, hget⟩ := List.getElem?_eq_some_iff.mp hr
  rw [OutlinePane.focusRow?, List.findIdx?_eq_some_iff_getElem]
  refine ⟨hlt, by rw [hget, hfocus]; exact beq_self_eq_true _, fun j hj hfound => ?_⟩
  have hids : r.id = m.rows[j].id := Option.some.inj (hfocus.symm.trans (eq_of_beq hfound))
  have hsame : i = j := by
    refine (List.getElem?_inj (by rwa [List.length_map]) m.ids_rows_nodup).mp ?_
    rw [List.getElem?_map, List.getElem?_map, hr, List.getElem?_eq_getElem (hj.trans hlt)]
    exact congrArg some hids
  omega

theorem Revealed.exists_focusAt (h : m.Revealed) : ∃ i, m.FocusAt i := by
  obtain ⟨id, hid, -, hcount⟩ := h.count_rows
  obtain ⟨r, hr, rfl⟩ := List.mem_map.mp (List.count_pos_iff.mp (by rw [hcount]; exact one_pos))
  obtain ⟨i, hi⟩ := List.mem_iff_getElem?.mp hr
  exact ⟨i, r, hi, hid⟩

/-- The first row is that of the root. -/
theorem focusAt_root (h : m.tree.has m.tree.root) (hroot : m.focused? = some m.tree.root) :
    m.FocusAt 0 := by
  have hsize : m.tree.root < m.tree.nodes.size := by simpa [Tree.has] using h
  obtain ⟨levels, hlevels⟩ : ∃ k, m.tree.size = k + 1 := Nat.exists_eq_add_one.mpr <|
    Nat.zero_lt_of_lt hsize
  obtain ⟨n, hrows⟩ := rowsFrom_of_fresh levels 0 none
    (show Tree.Fresh m.tree.nodes [] m.tree.root from ⟨hsize, List.not_mem_nil⟩)
  refine ⟨m.row 0 none m.tree.root n, ?_, hroot⟩
  rw [rows, hlevels, hrows]
  rfl

end Model

/-! ### Arrow keys -/

/-- The arrow key that goes down or up. -/
def Key.arrow : (down : Bool) → Key
  | true => .down
  | false => .up

/-- The row that an arrow key goes to, if there are so many. -/
def rowBeside? : (down : Bool) → ℕ → Option ℕ
  | true, i => some (i + 1)
  | false, i => if i = 0 then none else some (i - 1)

theorem OutlinePane.event_arrow {m : Model} {i : ℕ} (h : m.FocusAt i) (down : Bool) :
    event m (.arrow down) =
      match (rowBeside? down i).bind (m.rows[·]?) with
      | some r => .select r.id
      | none => .none := by
  have hevent : event m (.arrow down) = ((neighbour? m down).map Event.select).getD .none := by
    cases down <;> rfl
  have hbeside : neighbour? m down = ((rowBeside? down i).bind (m.rows[·]?)).map Row.id := by
    rw [neighbour?, h.focusRow?]
    cases down with
    | true => rfl
    | false => by_cases hi : i = 0 <;> simp [rowBeside?, hi]
  rw [hevent, hbeside]
  cases (rowBeside? down i).bind (m.rows[·]?) <;> rfl

namespace App

/-- The outline pane is in use, with a tree in which every node has one place. -/
structure OnOutline (a : App) : Prop where
  pane : a.pane = .outline
  strict : a.model.tree.Strict

variable {a : App} {i j : ℕ}

theorem pressAll_replicate_succ (a : App) (files : Files) (key : KeyPress) (k : ℕ) :
    a.pressAll files (List.replicate (k + 1) key) =
      ((a.pressAll files (List.replicate k key)).press files key).1 := by
  rw [List.replicate_succ', pressAll, List.foldl_append]
  rfl

theorem press_arrow (hpane : a.pane = .outline) (files : Files) (control down : Bool) :
    (a.press files ⟨.arrow down, control⟩).1 =
      a.apply (OutlinePane.event a.model (.arrow down)) := by
  have hevent : a.event (.arrow down) = OutlinePane.event a.model (.arrow down) := by
    rw [event, hpane]
  rw [← hevent]
  cases down <;> rfl

namespace OnOutline

variable (h : a.OnOutline) (files : Files) (control down : Bool)
include h

/-- An arrow key goes to the row on its side. -/
theorem press_arrow (hi : a.model.FocusAt i) (hj : rowBeside? down i = some j)
    (hlt : j < a.model.rows.length) :
    let b := (a.press files ⟨.arrow down, control⟩).1
    b.OnOutline ∧ b.model.rows = a.model.rows ∧ b.model.FocusAt j := by
  obtain ⟨r, hr⟩ : ∃ r, a.model.rows[j]? = some r := ⟨_, List.getElem?_eq_getElem hlt⟩
  obtain ⟨hrows, hfocus⟩ := Model.focusOn_of_mem_rows h.strict
    (List.mem_map_of_mem (List.mem_of_getElem? hr))
  rw [App.press_arrow h.pane, OutlinePane.event_arrow hi, hj, Option.bind_some, hr]
  refine ⟨⟨h.pane, ?_⟩, hrows, r, ?_, hfocus⟩
  · exact (a.model.tree_focusOn r.id).symm ▸ h.strict
  · exact (congrArg (·[j]?) hrows).trans hr

/-- At the ends of the outline an arrow key does nothing. -/
theorem press_arrow_eq_self (hi : a.model.FocusAt i)
    (hend : ∀ j, rowBeside? down i = some j → a.model.rows.length ≤ j) :
    (a.press files ⟨.arrow down, control⟩).1 = a := by
  have hnone : (rowBeside? down i).bind (a.model.rows[·]?) = none := by
    rw [Option.bind_eq_none_iff]
    exact fun j hj => List.getElem?_eq_none (hend j hj)
  rw [App.press_arrow h.pane, OutlinePane.event_arrow hi, hnone]
  rfl

theorem press_down (hi : a.model.FocusAt i) (hlt : i + 1 < a.model.rows.length) :
    let b := (a.press files ⟨.down, control⟩).1
    b.OnOutline ∧ b.model.rows = a.model.rows ∧ b.model.FocusAt (i + 1) :=
  h.press_arrow files control true hi rfl hlt

theorem press_down_eq_self (hi : a.model.FocusAt i) (hlast : a.model.rows.length ≤ i + 1) :
    (a.press files ⟨.down, control⟩).1 = a := by
  refine h.press_arrow_eq_self files control true hi fun j hj => ?_
  obtain rfl := Option.some.inj hj
  exact hlast

theorem press_up (hi : a.model.FocusAt (i + 1)) :
    let b := (a.press files ⟨.up, control⟩).1
    b.OnOutline ∧ b.model.rows = a.model.rows ∧ b.model.FocusAt i :=
  h.press_arrow files control false hi rfl ((Nat.lt_succ_self i).trans hi.lt)

theorem press_up_eq_self (hi : a.model.FocusAt 0) : (a.press files ⟨.up, control⟩).1 = a :=
  h.press_arrow_eq_self files control false hi fun j hj => by cases hj

/-- Down and up again leads back, if the first step led anywhere. -/
theorem press_down_up (hi : a.model.FocusAt i) :
    let b := (a.press files ⟨.down, control⟩).1
    b.model.focused? ≠ a.model.focused? →
      (b.press files ⟨.up, control⟩).1.model.focused? = a.model.focused? := by
  intro b hmoved
  have hlt : i + 1 < a.model.rows.length := by
    by_contra hlast
    have hself : b = a := h.press_down_eq_self files control hi (not_lt.mp hlast)
    exact hmoved (by rw [hself])
  obtain ⟨hb, hrows, hat⟩ := h.press_down files control hi hlt
  obtain ⟨-, hrows', hat'⟩ := hb.press_up files control hat
  rw [hat'.focused?_eq, hi.focused?_eq, hrows', hrows]

/-- The key that goes down, pressed again and again, ends on the last row. -/
theorem pressAll_down (hi : a.model.FocusAt i) (k : ℕ) :
    let b := a.pressAll files (List.replicate k ⟨.down, control⟩)
    b.OnOutline ∧ b.model.rows = a.model.rows ∧
      b.model.FocusAt (min (i + k) (a.model.rows.length - 1)) := by
  have hlt := hi.lt
  induction k with
  | zero =>
      rw [Nat.add_zero, min_eq_left (by omega)]
      exact ⟨h, rfl, hi⟩
  | succ k ih =>
      obtain ⟨hb, hrows, hat⟩ := ih
      rw [pressAll_replicate_succ]
      by_cases hnext : i + k + 1 < a.model.rows.length
      · rw [min_eq_left (by omega)] at hat ⊢
        obtain ⟨hc, hrows', hat'⟩ := hb.press_down files control hat (hrows ▸ hnext)
        exact ⟨hc, hrows'.trans hrows, hat'⟩
      · rw [min_eq_right (by omega)] at hat ⊢
        rw [hb.press_down_eq_self files control hat (by rw [hrows]; omega)]
        exact ⟨hb, hrows, hat⟩

/-- From the first row on, the key that goes down visits one row after the other. -/
theorem focused?_pressAll_down (hi : a.model.FocusAt 0) :
    ((List.range a.model.rows.length).map fun k =>
      (a.pressAll files (List.replicate k ⟨.down, control⟩)).model.focused?) =
    a.model.rows.map fun r => some r.id := by
  refine List.ext_getElem (by simp) fun k hk _ => ?_
  rw [List.length_map, List.length_range] at hk
  obtain ⟨-, hrows, hat⟩ := h.pressAll_down files control hi k
  rw [Nat.zero_add, min_eq_left (by omega)] at hat
  rw [List.getElem_map, List.getElem_map, List.getElem_range, hat.focused?_eq, hrows,
    List.getElem?_eq_getElem hk]
  rfl

/-- On the last row the key that goes down does nothing any more. -/
theorem pressAll_down_eq_self (hi : a.model.FocusAt i) {k : ℕ}
    (hk : a.model.rows.length ≤ i + k + 1) :
    a.pressAll files (List.replicate (k + 1) ⟨.down, control⟩) =
      a.pressAll files (List.replicate k ⟨.down, control⟩) := by
  obtain ⟨hb, hrows, hat⟩ := h.pressAll_down files control hi k
  have hlt := hi.lt
  rw [pressAll_replicate_succ, hb.press_down_eq_self files control hat]
  rw [hrows]
  omega

end OnOutline

/-! ### Runs of the viewer -/

/-- A tree that comes is that of a snapshot, or it was loaded. -/
theorem loaded_of_brings? {o : Occurrence} {u : Tree} (h : a.brings? o = some u) :
    o = .snapshot u ∨ ∃ json, Document.load json = .ok u := by
  unfold brings? at h
  split at h
  · obtain ⟨name, -, hfile⟩ := Option.bind_eq_some_iff.mp h
    cases hload : Document.loadFile _ name with
    | error cause =>
        rw [hload] at hfile
        cases hfile
    | ok u' =>
        rw [hload] at hfile
        obtain rfl := Option.some.inj hfile
        exact .inr (Document.exists_load_of_loadFile hload)
  · cases o with
    | key files k => cases h
    | reload files => cases h
    | snapshot u' =>
        obtain rfl := Option.some.inj h
        exact .inl rfl

theorem strict_after (h : a.model.tree.Strict) {o : Occurrence}
    (hsnapshot : ∀ u, o = .snapshot u → u.Strict) : (a.after o).model.tree.Strict := by
  rw [tree_after]
  cases hbrings : a.brings? o with
  | none => exact h
  | some u =>
      rcases loaded_of_brings? hbrings with hu | ⟨json, hload⟩
      · exact hsnapshot u hu
      · exact Document.strict_of_load hload

theorem strict_run (h : a.model.tree.Strict) {occurrences : List Occurrence}
    (hsnapshots : ∀ u, Occurrence.snapshot u ∈ occurrences → u.Strict) :
    (occurrences.foldl after a).model.tree.Strict := by
  refine List.foldlRecOn (motive := fun a => a.model.tree.Strict) occurrences after h
    fun a ha o ho => strict_after ha ?_
  rintro u rfl
  exact hsnapshots u ho

/-- In every state that a viewer of a loaded tree reaches, with the outline pane in use, the focus is
on a row.  The keys that go down and up put it on the row behind and the row before, and leave the
rows as they are; at the last row and at the first one they do nothing at all.  So to go down and up
again leads back, if the first key led anywhere; and from the root the key that goes down, pressed
again and again, visits every row once, in order, and then does nothing any more. -/
theorem arrows_walk_rows (json : Json) (t : Tree) (hload : Document.load json = .ok t)
    (settings : Settings) (source : Option String) (occurrences : List Occurrence)
    (hsnapshots : ∀ u, Occurrence.snapshot u ∈ occurrences →
      ∃ json, Document.load json = .ok u) (files : Files) (control : Bool) :
    let a := occurrences.foldl after (.start (.ofTree t) settings source)
    let down (a : App) : App := (a.press files ⟨.down, control⟩).1
    let up (a : App) : App := (a.press files ⟨.up, control⟩).1
    let downs (k : ℕ) : App := a.pressAll files (List.replicate k ⟨.down, control⟩)
    let rows := a.model.rows
    a.pane = .outline →
    (∃ i, a.model.FocusAt i) ∧
    (∀ i, a.model.FocusAt i →
      (i + 1 < rows.length → (down a).model.FocusAt (i + 1) ∧ (down a).model.rows = rows) ∧
      (i + 1 = rows.length → down a = a) ∧
      (0 < i → (up a).model.FocusAt (i - 1) ∧ (up a).model.rows = rows) ∧
      (i = 0 → up a = a)) ∧
    ((down a).model.focused? ≠ a.model.focused? →
      (up (down a)).model.focused? = a.model.focused?) ∧
    (a.model.focused? = some a.model.tree.root →
      ((List.range rows.length).map fun k => (downs k).model.focused?) =
        rows.map (fun r => some r.id) ∧
      (rows.map Row.id).Nodup ∧
      ∀ k, (downs k).model.rows = rows ∧ (rows.length ≤ k + 1 → downs (k + 1) = downs k)) := by
  intro a down up downs rows hpane
  have hstrict : a.model.tree.Strict :=
    strict_run (Document.strict_of_load hload) fun u hu =>
      let ⟨_, hu⟩ := hsnapshots u hu
      Document.strict_of_load hu
  have hrevealed : a.model.Revealed :=
    revealed_run (Model.revealed_ofTree (Tree.closed_of_load hload)) fun u hu =>
      let ⟨_, hu⟩ := hsnapshots u hu
      Tree.closed_of_load hu
  have h : a.OnOutline := ⟨hpane, hstrict⟩
  obtain ⟨i, hi⟩ := hrevealed.exists_focusAt
  refine ⟨⟨i, hi⟩, fun i hi => ⟨fun hlt => ?_, fun hlast => ?_, fun hpos => ?_, ?_⟩,
    h.press_down_up files control hi, fun hroot => ?_⟩
  · exact (h.press_down files control hi hlt).2.symm
  · exact h.press_down_eq_self files control hi hlast.ge
  · obtain ⟨i, rfl⟩ := Nat.exists_eq_add_one.mpr hpos
    exact (h.press_up files control hi).2.symm
  · rintro rfl
    exact h.press_up_eq_self files control hi
  · have hfirst : a.model.FocusAt 0 := Model.focusAt_root hstrict.has_root hroot
    refine ⟨h.focused?_pressAll_down files control hfirst, a.model.ids_rows_nodup, fun k =>
      ⟨(h.pressAll_down files control hfirst k).2.1, fun hlast => ?_⟩⟩
    exact h.pressAll_down_eq_self files control hfirst (by rwa [Nat.zero_add])

/-- The rows are folded, and the focus goes up to the root. -/
def foldingUp (t : Tree) : List Occurrence :=
  folding t ++ [Occurrence.key (fun _ => .error .missing) ⟨.up, false⟩]

theorem arrows_walk_rows_folding : ∃ t, Document.load leaflet = .ok t ∧
    let gone : Files := fun _ => .error .missing
    let a := (foldingUp t).foldl after
      (.start (.ofTree t) ⟨"ast", "  ", 24, 40, false, 250, "info"⟩ (some "a.json"))
    (a.press gone ⟨.up, false⟩).1 = a ∧ (a.press gone ⟨.down, false⟩).1.model.FocusAt 1 ∧
      ((List.range 3).map fun k =>
        (a.pressAll gone (List.replicate k ⟨.down, false⟩)).model.focused?) =
          [some 0, some 1, some 3] := by
  have hsnapshots (t : Tree) (ht : Document.load leaflet = .ok t) :
      ∀ u, Occurrence.snapshot u ∈ foldingUp t → ∃ json, Document.load json = .ok u := by
    intro u hu
    obtain rfl : u = t := by simpa [foldingUp, folding] using hu
    exact ⟨leaflet, ht⟩
  refine ⟨_, rfl, ?_⟩
  intro gone a
  have hrows : a.model.rows.map (fun r => some r.id) = [some 0, some 1, some 3] := by
    decide +kernel
  have hroot : a.model.focused? = some a.model.tree.root := by decide +kernel
  obtain ⟨-, hstep, -, htour⟩ := arrows_walk_rows leaflet _ rfl
    ⟨"ast", "  ", 24, 40, false, 250, "info"⟩ (some "a.json") (foldingUp _) (hsnapshots _ rfl) gone
    false (by decide +kernel)
  have hlength : a.model.rows.length = 3 := by simpa using congrArg List.length hrows
  have hfirst : a.model.FocusAt 0 := Model.focusAt_root (by decide +kernel) hroot
  obtain ⟨hdown, -, -, hup⟩ := hstep 0 hfirst
  refine ⟨hup rfl, (hdown (hlength ▸ by decide)).1, ?_⟩
  rw [← hrows, ← (htour hroot).1, hlength]

end App

end SyntaxLens.Viewer

import SyntaxLens.Proofs.Viewer.Following
import SyntaxLens.Proofs.Viewer.Reveal

/-! # New trees

A tree that comes takes the place of everything that was done to the one before, and a tree that
fails to come changes nothing (`replacement`).

* What happens to a viewer brings a tree if it is a snapshot, or if the source is read again and
  loads (`App.brings?`).  One step shows this tree as at the start, or keeps the tree on show
  (`App.after_cases`); so the tree on show is the last one that was brought (`App.tree_run`).
* What a viewer does depends on its model, its pane and its source only (`App.Agree`).  After a new
  tree, two viewers in the same pane and with the same source cannot be told apart any more by what
  they show. -/

namespace SyntaxLens.Viewer

namespace Occurrence

/-- The files in which the source is read again. -/
def rereads? : Occurrence → Option Files
  | .key files k => if k.key = .char 'r' then some files else none
  | .reload files => some files
  | .snapshot _ => none

def snapshot? : Occurrence → Option Tree
  | .snapshot t => some t
  | _ => none

end Occurrence

namespace App

/-- The tree that an occurrence brings. -/
def brings? (a : App) (o : Occurrence) : Option Tree :=
  match o.rereads? with
  | some files => a.source.bind fun name => (Document.loadFile files name).toOption
  | none => o.snapshot?

variable {a b : App} {o : Occurrence}

/-! ### One step -/

theorem reload_of_source_eq_none (h : a.source = none) (files : Files) :
    a.reload files = { a with status := some .nothingToReload } := by
  rw [reload, h]

section reload
variable {files : Files} {name : String} (hsource : a.source = some name)
include hsource

theorem reload_of_ok {t : Tree} (h : Document.loadFile files name = .ok t) :
    a.reload files = { a with model := .ofTree t, status := some .reloaded } := by
  simp [reload, hsource, h]

theorem reload_of_error {cause : LoadError} (h : Document.loadFile files name = .error cause) :
    a.reload files = { a with status := some (.reloadFailed cause) } := by
  simp [reload, hsource, h]

end reload

theorem after_of_rereads? {files : Files} (h : o.rereads? = some files) :
    a.after o = a.reload files := by
  cases o with
  | key files' k =>
      obtain ⟨hkey, hfiles⟩ := Option.ite_none_right_eq_some.mp h
      obtain rfl := Option.some.inj hfiles
      simp [after, press, hkey]
  | reload files' => rw [after, Option.some.inj h]
  | snapshot t => cases h

/-- All that can happen in one step: a tree is brought and shown as at the start; or the viewer is
ended, changes the pane or the status; or what a pane asked for is done. -/
theorem after_cases (a : App) (o : Occurrence) :
    (∃ t status snapshots, a.brings? o = some t ∧
      a.after o = { a with model := .ofTree t, status := status, snapshots := snapshots }) ∨
    (a.brings? o = none ∧ ∃ pane ends status,
      a.after o = { a with pane := pane, quit := ends || a.quit, status := status }) ∨
    (a.brings? o = none ∧ ∃ e, a.after o = a.apply e) := by
  unfold brings?
  cases hreads : o.rereads? with
  | some files =>
      rw [after_of_rereads? hreads]
      dsimp only
      rcases Option.eq_none_or_eq_some a.source with hsource | ⟨name, hsource⟩
      · exact .inr (.inl ⟨by rw [hsource]; rfl, a.pane, false, _,
          reload_of_source_eq_none hsource files⟩)
      · cases hload : Document.loadFile files name with
        | error cause =>
            exact .inr (.inl ⟨by rw [hsource, Option.bind_some, hload]; rfl, a.pane, false, _,
              reload_of_error hsource hload⟩)
        | ok t =>
            exact .inl ⟨t, _, a.snapshots, by rw [hsource, Option.bind_some, hload]; rfl,
              reload_of_ok hsource hload⟩
  | none =>
      cases o with
      | key files k =>
          have hkey : k.key ≠ .char 'r' := by
            intro hkey
            rw [Occurrence.rereads?, if_pos hkey] at hreads
            cases hreads
          rw [after, press]
          split_ifs
          · exact .inr (.inl ⟨rfl, a.pane, true, a.status, rfl⟩)
          · exact .inr (.inl ⟨rfl, a.pane.other, false, a.status, rfl⟩)
          · exact .inr (.inr ⟨rfl, _, rfl⟩)
      | reload files => cases hreads
      | snapshot t => exact .inl ⟨t, _, _, rfl, rfl⟩

theorem tree_after (a : App) (o : Occurrence) :
    (a.after o).model.tree = (a.brings? o).getD a.model.tree := by
  rcases a.after_cases o with ⟨t, _, _, ht, h⟩ | ⟨hnone, _, _, _, h⟩ | ⟨hnone, e, h⟩
  · rw [ht, h]
    rfl
  · rw [hnone, h]
    rfl
  · rw [hnone, h]
    exact (a.apply_keeps e).1

theorem source_after (a : App) (o : Occurrence) : (a.after o).source = a.source := by
  rcases a.after_cases o with ⟨_, _, _, -, h⟩ | ⟨-, _, _, _, h⟩ | ⟨-, e, h⟩
  · rw [h]
  · rw [h]
  · rw [h]
    exact (a.apply_keeps e).2

theorem quit_apply (a : App) (e : Event) : (a.apply e).quit = a.quit := by
  cases e with
  | move d =>
      unfold apply
      dsimp only
      split <;> rfl
  | select id => rfl
  | toggle id => rfl
  | none => rfl

theorem quit_after (h : a.quit = true) (o : Occurrence) : (a.after o).quit = true := by
  rcases a.after_cases o with ⟨_, _, _, -, hafter⟩ | ⟨-, _, _, _, hafter⟩ | ⟨-, e, hafter⟩
  · rw [hafter]
    exact h
  · rw [hafter, h]
    exact Bool.or_true _
  · rw [hafter, quit_apply]
    exact h

/-- A model of a new tree has the nodes expanded that a path leads to. -/
theorem mem_expanded_ofTree (t : Tree) (id : NodeId) :
    id ∈ (Model.ofTree t).expanded ↔ ∃ p, t.resolve p = some id :=
  (t.reached_tfae id).out 0 1

/-! ### Runs -/

theorem source_run (a : App) (occurrences : List Occurrence) :
    (occurrences.foldl after a).source = a.source :=
  List.foldlRecOn (motive := fun b => b.source = a.source) occurrences after rfl
    fun b hb o _ => (b.source_after o).trans hb

theorem quit_run (h : a.quit = true) (occurrences : List Occurrence) :
    (occurrences.foldl after a).quit = true :=
  List.foldlRecOn (motive := fun a => a.quit = true) occurrences after h
    fun _ ha o _ => quit_after ha o

/-- The last tree that is brought in a run. -/
def lastBrought? (a : App) : List Occurrence → Option Tree
  | [] => none
  | o :: rest => ((a.after o).lastBrought? rest).or (a.brings? o)

theorem tree_run (a : App) (occurrences : List Occurrence) :
    (occurrences.foldl after a).model.tree = (a.lastBrought? occurrences).getD a.model.tree := by
  induction occurrences generalizing a with
  | nil => rfl
  | cons o occurrences ih =>
      rw [List.foldl_cons, ih, tree_after, lastBrought?]
      cases (a.after o).lastBrought? occurrences <;> rfl

/-! ### What later steps depend on -/

/-- The viewers have the same model, the same pane in use and the same source. -/
structure Agree (a b : App) : Prop where
  model : a.model = b.model
  pane : a.pane = b.pane
  source : a.source = b.source

namespace Agree

variable (h : Agree a b)
include h

theorem event (key : Key) : a.event key = b.event key := by
  rw [App.event, App.event, h.pane, h.model]

theorem apply (e : Event) : Agree (a.apply e) (b.apply e) := by
  cases e with
  | move d =>
      rw [App.apply, App.apply, h.model]
      dsimp only
      split
      · exact ⟨rfl, h.pane, h.source⟩
      · exact ⟨rfl, h.pane, h.source⟩
  | select id => exact ⟨by rw [App.apply, App.apply, h.model], h.pane, h.source⟩
  | toggle id => exact ⟨by rw [App.apply, App.apply, h.model], h.pane, h.source⟩
  | none => exact h

theorem reload (files : Files) : Agree (a.reload files) (b.reload files) := by
  rw [App.reload, App.reload, h.source]
  split
  · exact ⟨h.model, h.pane, rfl⟩
  · split
    · exact ⟨rfl, h.pane, rfl⟩
    · exact ⟨h.model, h.pane, rfl⟩

theorem after (o : Occurrence) : Agree (a.after o) (b.after o) := by
  cases o with
  | key files k =>
      rw [App.after, App.after, press, press, h.event]
      split_ifs
      · exact ⟨h.model, h.pane, h.source⟩
      · exact ⟨h.model, congrArg Pane.other h.pane, h.source⟩
      · exact h.reload files
      · exact h.apply _
  | reload files => exact h.reload files
  | snapshot t => exact ⟨rfl, h.pane, h.source⟩

theorem run (occurrences : List Occurrence) :
    Agree (occurrences.foldl App.after a) (occurrences.foldl App.after b) := by
  induction occurrences generalizing a b with
  | nil => exact h
  | cons o occurrences ih => exact ih (h.after o)

end Agree

theorem agree_after_of_brings? {t : Tree} (h : a.brings? o = some t) :
    Agree (a.after o) { a with model := .ofTree t } := by
  rcases a.after_cases o with ⟨u, _, _, hu, hafter⟩ | ⟨hnone, -⟩ | ⟨hnone, -⟩
  · rw [hafter, Option.some.inj (h.symm.trans hu)]
    exact ⟨rfl, rfl, rfl⟩
  · cases h.symm.trans hnone
  · cases h.symm.trans hnone

/-- In every state that a viewer reaches, a tree that comes, as a snapshot or from a source that is
read again, makes the model that of this tree at the start: the focus is on the root, and exactly
the nodes are expanded that a path leads to.  Nothing of what was done before is left: a viewer that
begins with this tree, in the same pane and with the same source, shows the same ever after.  When
the source does not load, whatever the cause, and when there is none, the status changes and nothing
else.  Nothing but a tree that comes changes the tree on show, so this is the last one that came;
and a viewer that was ended stays so. -/
theorem replacement (m : Model) (settings : Settings) (source : Option String)
    (before : List Occurrence) :
    let a := before.foldl after (.start m settings source)
    (∀ o t, a.brings? o = some t →
      (a.after o).model = .ofTree t ∧ (a.after o).model.path = [] ∧
      (∀ id, id ∈ (a.after o).model.expanded ↔ ∃ p, t.resolve p = some id) ∧
      ∀ later : List Occurrence, (later.foldl after (a.after o)).model =
        (later.foldl after { App.start (.ofTree t) settings source with pane := a.pane }).model) ∧
    (∀ o files, o.rereads? = some files →
      (source = none → a.after o = { a with status := some .nothingToReload }) ∧
      ∀ name, source = some name →
        (∀ t, Document.loadFile files name = .ok t →
          a.after o = { a with model := .ofTree t, status := some .reloaded }) ∧
        ∀ cause, Document.loadFile files name = .error cause →
          a.after o = { a with status := some (.reloadFailed cause) }) ∧
    (∀ o, a.brings? o = none → (a.after o).model.tree = a.model.tree) ∧
    a.model.tree = ((App.start m settings source).lastBrought? before).getD m.tree ∧
    (a.quit = true → ∀ later : List Occurrence, (later.foldl after a).quit = true) := by
  intro a
  have hsource : a.source = source := source_run _ before
  refine ⟨fun o t ht => ?_, fun o files ho => ?_, fun o ho => ?_, tree_run _ before,
    fun h => quit_run h⟩
  · have hagree := agree_after_of_brings? ht
    rw [hagree.model]
    refine ⟨rfl, rfl, mem_expanded_ofTree t, fun later => (Agree.run ?_ later).model⟩
    exact ⟨hagree.model, hagree.pane, hagree.source.trans hsource⟩
  · rw [after_of_rereads? ho]
    exact ⟨fun h => reload_of_source_eq_none (hsource.trans h) files, fun name h =>
      ⟨fun t => reload_of_ok (hsource.trans h), fun cause => reload_of_error (hsource.trans h)⟩⟩
  · rw [tree_after, ho]
    rfl

/-- The file of a viewer holds a program without statements now. -/
def emptied : Files := fun _ => .ok "\x7b\"type\":\"Program\",\"body\":[]\x7d"

theorem replacement_emptied :
    let t := Tree.ofNodes Focus.coil 0
    let a := (folding t).foldl after
      (.start (.ofTree .empty) ⟨"ast", "  ", 24, 40, false, 250, "info"⟩ (some "a.json"))
    let gone : Occurrence := .reload fun _ => .error .directory
    a.model.tree = t ∧ a.model.isExpanded 1 = false ∧
      a.after gone =
        { a with status := some (.reloadFailed (.unreadable "Is a directory (os error 21)")) } ∧
      ∃ u, u.size = 1 ∧ (a.after (.key emptied ⟨.char 'r', false⟩)).model = .ofTree u := by
  intro t a gone
  obtain ⟨hbrought, hreread, -, hlast, -⟩ := replacement (.ofTree .empty)
    ⟨"ast", "  ", 24, 40, false, 250, "info"⟩ (some "a.json") (folding t)
  have hgone := ((hreread gone _ rfl).2 "a.json" rfl).2 _ rfl
  obtain ⟨u, hu, hsize⟩ : ∃ u, a.brings? (.key emptied ⟨.char 'r', false⟩) = some u ∧ u.size = 1 :=
    Option.map_eq_some_iff.mp (by decide +kernel)
  exact ⟨hlast, by decide +kernel, hgone, u, hsize, (hbrought _ u hu).1⟩

end App

end SyntaxLens.Viewer

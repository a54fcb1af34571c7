import SyntaxLens.Format.Outline
import SyntaxLens.Proofs.Tree.Descent
import SyntaxLens.Proofs.Viewer.Rows

/-! # The lines of outlines

The depth of a node can be read off its line (`shownDepth`): the connectors in front of a line are
three columns wide for each level (`Leads`).  With the depth read so, the lines are a descent
(`below_descends`), and so they come in the order of the walk, as the rows of the viewer do.

A description begins with an icon, which is no column of a connector and no mark of the focus
(`toList_describe`), so the marks single out one line (`isMarked_describe`). -/

namespace SyntaxLens

namespace Outline

/-! ### Reading lines -/

/-- The depth that a line shows: three columns for each level above, then a connector. -/
def shownDepth : List Char → ℕ
  | '│' :: ' ' :: ' ' :: rest => shownDepth rest + 1
  | ' ' :: ' ' :: ' ' :: rest => shownDepth rest + 1
  | '├' :: _ => 1
  | '└' :: _ => 1
  | _ => 0

/-- Whether a description has the marks of the focus around it. -/
def isMarked (description : String) : Bool :=
  description.toList.head? == some '»' && description.toList.getLast? == some '«'

/-- What stands in front of the children of a node at a depth. -/
def Leads (lead : String) (depth : ℕ) : Prop :=
  ∀ rest, shownDepth (lead.toList ++ rest) = shownDepth rest + depth

theorem leads_empty : Leads "" 0 := fun _ => rfl

section leads
variable {lead : String} {depth : ℕ} (h : Leads lead depth) (last : Bool)
include h

theorem Leads.deeper : Leads (lead ++ if last then "   " else "│  ") (depth + 1) := by
  intro rest
  rw [String.toList_append, List.append_assoc, h]
  cases last
  · exact Nat.add_right_comm _ 1 depth
  · exact Nat.add_right_comm _ 1 depth

/-- The line of a child shows one level more than its parent has. -/
theorem Leads.shownDepth_child (text : String) :
    shownDepth (lead ++ (if last then "└─ " else "├─ ") ++ text).toList = depth + 1 := by
  rw [String.toList_append, String.toList_append, List.append_assoc, h]
  cases last
  · exact Nat.add_comm 1 depth
  · exact Nat.add_comm 1 depth

end leads

example : shownDepth "   │  └─ id ◇ Identifier x".toList = 3 := by decide

/-! ### Descriptions -/

section descriptions
variable {t : Tree} {id : NodeId} (focused : Option NodeId) (width : ℕ)

theorem toList_icon (category : Option Category) :
    ∃ c, (Category.icon category).toList = [c] ∧ c ≠ '»' ∧ ∀ cs, shownDepth (c :: cs) = 0 := by
  cases category with
  | none => exact ⟨_, rfl, by decide, fun _ => rfl⟩
  | some category => cases category <;> exact ⟨_, rfl, by decide, fun _ => rfl⟩

/-- A description is an icon and what comes behind it, with marks around both at the focus. -/
theorem toList_describe (h : t.has id) : ∃ c cs, c ≠ '»' ∧ shownDepth (c :: cs) = 0 ∧
    (describe t focused width id).toList =
      if focused = some id then '»' :: (c :: cs ++ ['«']) else c :: cs := by
  obtain ⟨n, hn⟩ := t.exists_node? h
  obtain ⟨c, hicon, hmark, hdepth⟩ := toList_icon (n.kind?.map Kind.category)
  let label := truncate width (t.label id)
  let detail := if label.isEmpty then "" else " " ++ label
  refine ⟨c, (" " ++ n.tag ++ detail).toList, hmark, hdepth _, ?_⟩
  rw [describe, hn]
  dsimp only
  split <;> simp [String.toList_append, hicon, label, detail]

theorem isMarked_describe (h : t.has id) :
    isMarked (describe t focused width id) = (some id == focused) := by
  obtain ⟨c, cs, hmark, -, htext⟩ := toList_describe focused width h
  rw [isMarked, htext]
  by_cases hid : focused = some id
  · rw [if_pos hid, hid, List.head?_cons, ← List.cons_append, List.getLast?_concat]
    simp
  · have hicon : (some c == some '»') = false := by simpa using hmark
    have hother : (some id == focused) = false := by simpa using Ne.symm hid
    rw [if_neg hid, List.head?_cons, hicon, hother, Bool.false_and]

theorem shownDepth_describe (h : t.has id) :
    shownDepth (describe t focused width id).toList = 0 := by
  obtain ⟨c, cs, -, hdepth, htext⟩ := toList_describe focused width h
  rw [htext]
  split
  · rfl
  · exact hdepth

end descriptions

/-! ### Lines as a descent -/

/-- Where a line stands: its node, and the depth that it shows with a description of the node. -/
def Entry.place (describe : NodeId → String) (e : Entry) : NodeId × ℕ :=
  (e.id, shownDepth (e.lead ++ describe e.id).toList)

section descent
variable {t : Tree} (describe : NodeId → String) {levels depth : ℕ}

section siblings
variable {below : NodeId → String → List NodeId → List Entry × List NodeId} {lead : String}
  {s : Segment} {id : NodeId} {rest : List (Segment × NodeId)} {seen : List NodeId}

theorem siblings_of_not_fresh (h : ¬ Tree.Fresh t.nodes seen id) :
    siblings t below lead ((s, id) :: rest) seen = siblings t below lead rest seen := by
  rw [siblings, if_pos ((t.contains_or_not_has_iff seen id).mpr h)]

theorem siblings_of_fresh (h : Tree.Fresh t.nodes seen id) :
    siblings t below lead ((s, id) :: rest) seen =
      let inner := below id (lead ++ if rest.isEmpty then "   " else "│  ") (id :: seen)
      let others := siblings t below lead rest inner.2
      (⟨lead ++ (if rest.isEmpty then "└─ " else "├─ ") ++ s.text ++ " ", id⟩ ::
        inner.1 ++ others.1, others.2) := by
  have hc : ¬ (seen.contains id || !t.has id) = true :=
    mt (t.contains_or_not_has_iff seen id).mp (not_not_intro h)
  rw [siblings, if_neg hc]

end siblings

theorem Leads.place_child {lead : String} (h : Leads lead depth) (last : Bool) (text : String)
    (id : NodeId) :
    Entry.place describe ⟨lead ++ (if last then "└─ " else "├─ ") ++ text ++ " ", id⟩ =
      (id, depth + 1) := by
  rw [Entry.place]
  dsimp only
  rw [String.append_assoc, String.append_assoc, h.shownDepth_child]

theorem siblings_descends {below : NodeId → String → List NodeId → List Entry × List NodeId}
    (hbelow : ∀ id lead seen, Leads lead (depth + 1) → (Tree.unseen t.nodes seen).card ≤ levels →
      Tree.Descends t (depth + 1 + 1) (t.children id) seen
        ((below id lead seen).1.map (Entry.place describe)) (below id lead seen).2)
    {lead : String} (hlead : Leads lead depth) (children : List (Segment × NodeId)) :
    ∀ seen, (Tree.unseen t.nodes seen).card ≤ levels + 1 →
      Tree.Descends t (depth + 1) (children.map Prod.snd) seen
        ((siblings t below lead children seen).1.map (Entry.place describe))
        (siblings t below lead children seen).2 := by
  induction children with
  | nil => exact fun seen _ => .done _ seen
  | cons child rest ih =>
      obtain ⟨s, id⟩ := child
      intro seen hseen
      by_cases hf : Tree.Fresh t.nodes seen id
      · have hcard := Tree.card_unseen_cons t.nodes hf
        have hin := hbelow id _ (id :: seen) (hlead.deeper rest.isEmpty) (by omega)
        have hle := Tree.card_unseen_le t.nodes hin.subset
        have hout := ih _ (hle.trans (by omega))
        rw [siblings_of_fresh hf]
        simp only [List.map_append, List.map_cons, hlead.place_child]
        exact .visit hf hin hout
      · rw [siblings_of_not_fresh hf]
        exact .skip hf (ih seen hseen)

/-- With a level for every place unseen, the lines below a node are a descent. -/
theorem below_descends (levels : ℕ) : ∀ (depth : ℕ) (id : NodeId) (lead : String)
    (seen : List NodeId), Leads lead depth → (Tree.unseen t.nodes seen).card ≤ levels →
      Tree.Descends t (depth + 1) (t.children id) seen
        ((below t levels id lead seen).1.map (Entry.place describe))
        (below t levels id lead seen).2 := by
  induction levels with
  | zero =>
      intro depth id lead seen _ hseen
      exact .of_not_fresh fun _ _ => Tree.not_fresh_of_card_unseen t.nodes hseen
  | succ levels ih =>
      intro depth id lead seen hlead hseen
      rw [below, ← t.map_snd_segments]
      exact siblings_descends describe (ih (depth + 1)) hlead (t.segments id) seen hseen

/-- The lines are a descent from the root. -/
theorem entries_descends (hroot : t.has t.root → shownDepth (describe t.root).toList = 0) :
    ∃ after, Tree.Descends t 0 [t.root] [] ((entries t).map (Entry.place describe)) after := by
  unfold entries
  split
  · rename_i hhas
    have hf : Tree.Fresh t.nodes [] t.root := (t.fresh_iff_has t.root).mpr hhas
    have hcard := Tree.card_unseen_cons t.nodes hf
    have hsize : (Tree.unseen t.nodes []).card = t.size := Tree.card_unseen_nil t.nodes
    have hbelow := below_descends (t := t) describe t.size 0 t.root "" [t.root] leads_empty
      (by omega)
    exact ⟨_, by simpa [Entry.place, hroot hhas] using Tree.Descends.visit hf hbelow (.done 0 _)⟩
  · rename_i hhas
    exact ⟨[], .skip (mt (t.fresh_iff_has t.root).mp hhas) (.done 0 [])⟩

end descent

theorem map_entries (t : Tree) (focused : Option NodeId) (width : ℕ) :
    (entries t).map (Entry.place (describe t focused width)) = t.walk := by
  obtain ⟨after, h⟩ := entries_descends (t := t) (describe t focused width)
    (shownDepth_describe focused width)
  exact h.eq_walk

theorem ids_entries (t : Tree) : (entries t).map Entry.id = t.order := by
  rw [Tree.order, ← map_entries t none 0, List.map_map]
  rfl

/-- The marks stand in the lines of what is in focus. -/
theorem ids_filter_isMarked (t : Tree) (focused : Option NodeId) (width : ℕ) :
    ((entries t).filter fun e => isMarked (describe t focused width e.id)).map Entry.id =
      t.order.filter (some · == focused) := by
  rw [← ids_entries, List.filter_map]
  congr 1
  refine List.filter_congr fun e he => isMarked_describe focused width ?_
  exact t.has_of_mem_order (ids_entries t ▸ List.mem_map_of_mem he)

end Outline

namespace Tree

/-- Of the nodes that the walk visits, a path that leads to a node picks this one. -/
theorem filter_order_resolve (t : Tree) (p : Path) :
    t.order.filter (some · == t.resolve p) = (t.resolve p).toList := by
  cases h : t.resolve p with
  | none => simp
  | some id =>
      have hcount := List.count_eq_one_of_mem t.order_nodup (t.mem_order_of_resolve h)
      have hfilter : t.order.filter (some · == some id) = t.order.filter (· == id) := rfl
      rw [hfilter, List.filter_beq, hcount]
      rfl

/-- The walk with a stack, the rows of the viewer and the lines of the outline show the same nodes
at the same depths, whatever the arena, and all three end.  The focus marks stand in the line of the
node that the focus leads to, and in no other. -/
theorem walk_rows_entries_agree (t : Tree) (focus : Path) (width : ℕ) :
    let description := Outline.describe t (t.resolve focus) width
    t.outline focus width =
      String.join ((Outline.entries t).map fun e => e.lead ++ description e.id ++ "\n") ∧
    Walks t [(t.root, 0)] [] t.walk ∧ (∃ seen, Descends t 0 [t.root] [] t.walk seen) ∧
    (Viewer.Model.ofTree t).rows.map Viewer.Row.place = t.walk ∧
    (Outline.entries t).map (Outline.Entry.place description) = t.walk ∧
    ((Outline.entries t).filter fun e => Outline.isMarked (description e.id)).map Outline.Entry.id =
      (t.resolve focus).toList := by
  intro description
  refine ⟨rfl, t.walk_walks, t.descends_walk, Viewer.Model.map_rows_ofTree t,
    Outline.map_entries t _ width, ?_⟩
  rw [Outline.ids_filter_isMarked, t.filter_order_resolve]

end Tree

end SyntaxLens

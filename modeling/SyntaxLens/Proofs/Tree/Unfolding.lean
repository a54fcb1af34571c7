import SyntaxLens.Proofs.Tree.Descent
import SyntaxLens.Proofs.Tree.Strict

/-! # Walks without memory

A walk keeps account of what it has seen.  `Tree.Unfolds` lists the nodes below some places without
any such account: every child is gone into wherever it stands.

* If such a list names no node twice, nothing was passed over, and it is the walk
  (`Unfolds.eq_walk`).  So where the nodes of a tree can be listed by a recursion on what the tree
  was made from, the walk is that list.
* In a strict tree a walk never comes upon a node that it has seen: what it sees lies below nodes
  that it saw before (`Raised`), and a node has one owner only.  So the walk is such a list
  (`Strict.unfolds`). -/

namespace SyntaxLens.Tree

/-- The nodes at some places and below them, each before what is below it; all children are gone
into. -/
inductive Unfolds (t : Tree) :
    (depth : ℕ) → (ids : List NodeId) → (out : List (NodeId × ℕ)) → Prop
  | nil (depth : ℕ) : Unfolds t depth [] []
  | cons {id depth : ℕ} {ids : List NodeId} {inner out : List (NodeId × ℕ)} :
      Unfolds t (depth + 1) (t.children id) inner → Unfolds t depth ids out →
      Unfolds t depth (id :: ids) ((id, depth) :: (inner ++ out))

variable {t : Tree} {depth : ℕ} {ids seen after : List NodeId} {out : List (NodeId × ℕ)}

theorem Unfolds.append {ids' : List NodeId} {out' : List (NodeId × ℕ)}
    (h : Unfolds t depth ids out) (h' : Unfolds t depth ids' out') :
    Unfolds t depth (ids ++ ids') (out ++ out') := by
  induction h with
  | nil depth => exact h'
  | cons hin _ _ ih =>
      rw [List.cons_append, List.cons_append, List.append_assoc]
      exact .cons hin (ih h')

/-- The places come in their order, whatever is below them. -/
theorem Unfolds.sublist (h : Unfolds t depth ids out) : ids.Sublist (out.map Prod.fst) := by
  induction h with
  | nil depth => exact .slnil
  | cons _ _ _ ih =>
      rw [List.map_cons, List.map_append]
      exact (ih.trans (List.sublist_append_right _ _)).cons_cons _

theorem Unfolds.children_sublist (h : Unfolds t depth ids out) :
    ∀ id ∈ out.map Prod.fst, (t.children id).Sublist (out.map Prod.fst) := by
  induction h with
  | nil depth => simp
  | @cons id depth ids inner out hin _ ihin ih =>
      have hinner : (inner.map Prod.fst).Sublist (((id, depth) :: (inner ++ out)).map Prod.fst) := by
        rw [List.map_cons, List.map_append]
        exact (List.sublist_append_left _ _).cons _
      have houter : (out.map Prod.fst).Sublist (((id, depth) :: (inner ++ out)).map Prod.fst) := by
        rw [List.map_cons, List.map_append]
        exact (List.sublist_append_right _ _).cons _
      intro c hc
      rw [List.map_cons, List.map_append, List.mem_cons, List.mem_append] at hc
      rcases hc with rfl | hc | hc
      · exact hin.sublist.trans hinner
      · exact (ihin c hc).trans hinner
      · exact (ih c hc).trans houter

/-! ### What a descent sees -/

theorem Descends.fresh (h : Descends t depth ids seen out after) :
    ∀ c ∈ out.map Prod.fst, Fresh t.nodes seen c := by
  induction h with
  | done => simp
  | skip _ _ ih => exact ih
  | @visit id depth ids seen between after inner out hf hin _ ihin ih =>
      intro c hc
      rw [List.map_cons, List.map_append, List.mem_cons, List.mem_append] at hc
      rcases hc with rfl | hc | hc
      · exact hf
      · exact ((fresh_cons_iff t.nodes).mp (ihin c hc)).2
      · have hbetween := ih c hc
        exact ⟨hbetween.1, fun hseen =>
          hbetween.2 (hin.subset (List.mem_cons_of_mem id hseen))⟩

theorem Descends.mem_after (h : Descends t depth ids seen out after) {c : NodeId}
    (hc : c ∈ after) : c ∈ seen ∨ c ∈ out.map Prod.fst := by
  induction h with
  | done => exact .inl hc
  | skip _ _ ih => exact ih hc
  | visit _ _ _ ihin ih =>
      rw [List.map_cons, List.map_append, List.mem_cons, List.mem_append]
      rcases ih hc with hbetween | hout
      · rcases ihin hbetween with hseen | hinner
        · exact (List.mem_cons.mp hseen).symm.imp id .inl
        · exact .inr (.inr (.inl hinner))
      · exact .inr (.inr (.inr hout))

/-- What is visited was asked for, or it is a child of something visited. -/
theorem Descends.origin (h : Descends t depth ids seen out after) :
    ∀ c ∈ out.map Prod.fst, c ∈ ids ∨ ∃ owner ∈ out.map Prod.fst, c ∈ t.children owner := by
  induction h with
  | done => simp
  | skip _ _ ih => exact fun c hc => (ih c hc).imp_left (List.mem_cons_of_mem _)
  | @visit id depth ids seen between after inner out _ _ _ ihin ih =>
      intro c hc
      simp only [List.map_cons, List.map_append, List.mem_cons, List.mem_append] at hc ⊢
      rcases hc with rfl | hc | hc
      · exact .inl (.inl rfl)
      · rcases ihin c hc with hchild | ⟨owner, howner, hchild⟩
        · exact .inr ⟨id, .inl rfl, hchild⟩
        · exact .inr ⟨owner, .inr (.inl howner), hchild⟩
      · rcases ih c hc with hmem | ⟨owner, howner, hchild⟩
        · exact .inl (.inr hmem)
        · exact .inr ⟨owner, .inr (.inr howner), hchild⟩

/-! ### Lists without repetition -/

/-- A list that names no node twice is what a descent visits. -/
theorem Unfolds.descends (h : Unfolds t depth ids out) (hnd : (out.map Prod.fst).Nodup)
    (hfresh : ∀ c ∈ out.map Prod.fst, Fresh t.nodes seen c) :
    ∃ after, Descends t depth ids seen out after := by
  induction h generalizing seen with
  | nil depth => exact ⟨seen, .done depth seen⟩
  | @cons id depth ids inner out _ _ ihin ih =>
      simp only [List.map_cons, List.map_append, List.forall_mem_cons, List.forall_mem_append]
        at hnd hfresh
      obtain ⟨hid, hnd⟩ := List.nodup_cons.mp hnd
      obtain ⟨hndin, hndout, hdisjoint⟩ := List.nodup_append.mp hnd
      obtain ⟨hfid, hfin, hfout⟩ := hfresh
      have hinner : ∀ c ∈ inner.map Prod.fst, Fresh t.nodes (id :: seen) c := by
        intro c hc
        refine (fresh_cons_iff t.nodes).mpr ⟨?_, hfin c hc⟩
        rintro rfl
        exact hid (List.mem_append_left _ hc)
      obtain ⟨between, hin⟩ := ihin hndin hinner
      have hrest : ∀ c ∈ out.map Prod.fst, Fresh t.nodes between c := by
        intro c hc
        refine ⟨(hfout c hc).1, fun hbetween => ?_⟩
        rcases hin.mem_after hbetween with hseen | hcin
        · rcases List.mem_cons.mp hseen with rfl | hseen
          · exact hid (List.mem_append_right _ hc)
          · exact (hfout c hc).2 hseen
        · exact hdisjoint c hcin c hc rfl
      obtain ⟨after, hout⟩ := ih hndout hrest
      exact ⟨after, .visit hfid hin hout⟩

theorem Unfolds.eq_walk (h : Unfolds t 0 [t.root] out) (hnd : (out.map Prod.fst).Nodup)
    (hhas : ∀ c ∈ out.map Prod.fst, t.has c) : out = t.walk := by
  have hfresh : ∀ c ∈ out.map Prod.fst, Fresh t.nodes [] c := fun c hc =>
    (t.fresh_iff_has c).mpr (hhas c hc)
  obtain ⟨after, hdescends⟩ := h.descends hnd hfresh
  exact hdescends.eq_walk

/-! ### Strict trees -/

/-- The owners of the nodes are among `seen`. -/
def Raised (t : Tree) (seen ids : List NodeId) : Prop :=
  ∀ id ∈ ids, ∀ owner, id ∈ t.children owner → owner ∈ seen

theorem Raised.mono {more : List NodeId} (h : t.Raised seen ids) (hmore : seen ⊆ more) :
    t.Raised more ids :=
  fun id hid owner howner => hmore (h id hid owner howner)

namespace Strict

variable (h : t.Strict)
include h

/-- A descent that begins below what was seen comes upon nothing that was seen. -/
theorem unfolds_of_descends (hd : Descends t depth ids seen out after) (hnd : ids.Nodup)
    (hnew : ∀ id ∈ ids, Fresh t.nodes seen id) (hids : t.Raised seen ids)
    (hseen : t.Raised seen seen) : Unfolds t depth ids out ∧ t.Raised after after := by
  induction hd with
  | done depth seen => exact ⟨.nil depth, hseen⟩
  | skip hf _ _ => exact absurd (hnew _ List.mem_cons_self) hf
  | @visit id depth ids seen between after inner out hf hin _ ihin ih =>
      obtain ⟨hid, hnd⟩ := List.nodup_cons.mp hnd
      have howner : ∀ c ∈ t.children id, ∀ owner, c ∈ t.children owner → owner = id :=
        fun c hc owner hc' => h.owner_unique hc' hc
      have hchildren : ∀ c ∈ t.children id, Fresh t.nodes (id :: seen) c := by
        intro c hc
        obtain ⟨hlt, hhas⟩ := h.owner_lt id c hc
        refine (fresh_cons_iff t.nodes).mpr ⟨Nat.ne_of_gt hlt, by simpa [has] using hhas, ?_⟩
        exact fun hcseen => hf.2 (hseen c hcseen id hc)
      have hraised : t.Raised (id :: seen) (id :: seen) := by
        intro c hc owner hc'
        rcases List.mem_cons.mp hc with rfl | hc
        · exact List.mem_cons_of_mem _ (hids c List.mem_cons_self owner hc')
        · exact List.mem_cons_of_mem _ (hseen c hc owner hc')
      obtain ⟨hinner, hbetween⟩ := ihin (h.children_nodup id) hchildren
        (fun c hc owner hc' => howner c hc owner hc' ▸ List.mem_cons_self) hraised
      have hsubset : seen ⊆ between := List.Subset.trans (List.subset_cons_self id seen) hin.subset
      have hrest : t.Raised seen ids := fun c hc => hids c (List.mem_cons_of_mem id hc)
      have hlater : ∀ c ∈ ids, Fresh t.nodes between c := by
        intro c hc
        obtain ⟨hlt, hcseen⟩ := hnew c (List.mem_cons_of_mem id hc)
        refine ⟨hlt, fun hcbetween => ?_⟩
        rcases hin.mem_after hcbetween with hmem | hcin
        · rcases List.mem_cons.mp hmem with rfl | hmem
          · exact hid hc
          · exact hcseen hmem
        · -- A sibling that was visited below the node would have a second owner.
          rcases hin.origin c hcin with hchild | ⟨owner, hvisited, hchild⟩
          · exact hf.2 (hrest c hc id hchild)
          · exact (hin.fresh owner hvisited).2
              (List.mem_cons_of_mem id (hrest c hc owner hchild))
      obtain ⟨hout, hafter⟩ := ih hnd hlater (hrest.mono hsubset) hbetween
      exact ⟨.cons hinner hout, hafter⟩

/-- The walk of a strict tree goes into all children. -/
theorem unfolds : Unfolds t 0 [t.root] t.walk := by
  obtain ⟨after, hd⟩ := t.descends_walk
  have hroot : t.Raised [] [t.root] := by
    intro id hid owner hchild
    rw [List.mem_singleton] at hid
    exact absurd hid (h.ne_root_of_mem_children hchild)
  have hnew : ∀ id ∈ [t.root], Fresh t.nodes [] id := by
    rw [List.forall_mem_singleton]
    exact (t.fresh_iff_has t.root).mpr h.has_root
  exact (h.unfolds_of_descends hd (List.nodup_singleton _) hnew hroot (fun _ hc => by cases hc)).1

/-- Siblings are visited in their order. -/
theorem children_sublist_order (id : NodeId) : (t.children id).Sublist t.order := by
  by_cases hlt : id < t.nodes.size
  · exact h.unfolds.children_sublist id (h.mem_order (by simpa [has] using hlt))
  · simp [children, childrenAt, hlt]

end Strict

end SyntaxLens.Tree

import SyntaxLens.Proofs.Tree.Reachability

/-! # Descents

A descent goes from a node to its children by recursion and hands the places seen from one call to
the next.  `Descends` is this recursion as a derivation; one that does not end has none.

* The calls that a descent has still to make are what stands on the stack of a walk, so a descent
  visits the arena in the order of the walk and at the same depths (`Descends.walks`,
  `Descends.eq_walk`), although a walk leaves places on its stack that were seen in the meantime.
* Every visit sees a place that was not seen, so every descent ends, within as many levels as there
  are places unseen (`exists_descends`).
* A descent depends on the arena only through its size and the children of what it visits
  (`Descends.congr`). -/

namespace SyntaxLens.Tree

/-- The descent into nodes at one depth ends when it has visited `out`; the places seen are `seen`
before and `after` then. -/
inductive Descends (t : Tree) : (depth : ℕ) → (ids seen : List NodeId) →
    (out : List (NodeId × ℕ)) → (after : List NodeId) → Prop
  | done (depth : ℕ) (seen : List NodeId) : Descends t depth [] seen [] seen
  | skip {id depth : ℕ} {ids seen after : List NodeId} {out : List (NodeId × ℕ)} :
      ¬ Fresh t.nodes seen id → Descends t depth ids seen out after →
      Descends t depth (id :: ids) seen out after
  | visit {id depth : ℕ} {ids seen between after : List NodeId} {inner out : List (NodeId × ℕ)} :
      Fresh t.nodes seen id → Descends t (depth + 1) (t.children id) (id :: seen) inner between →
      Descends t depth ids between out after →
      Descends t depth (id :: ids) seen ((id, depth) :: (inner ++ out)) after

section descents
variable {t : Tree} {depth : ℕ} {ids more seen between after : List NodeId}
  {out out' : List (NodeId × ℕ)}

theorem Descends.subset (h : Descends t depth ids seen out after) : seen ⊆ after := by
  induction h with
  | done => exact List.Subset.refl _
  | skip _ _ ih => exact ih
  | visit _ _ _ ih₁ ih₂ =>
      exact fun c hc => ih₂ (ih₁ (List.mem_cons_of_mem _ hc))

theorem Descends.of_not_fresh (h : ∀ id ∈ ids, ¬ Fresh t.nodes seen id) :
    Descends t depth ids seen [] seen := by
  induction ids with
  | nil => exact .done depth seen
  | cons id ids ih =>
      obtain ⟨hid, hids⟩ := List.forall_mem_cons.mp h
      exact .skip hid (ih hids)

theorem Descends.append (h : Descends t depth ids seen out between)
    (h' : Descends t depth more between out' after) :
    Descends t depth (ids ++ more) seen (out ++ out') after := by
  induction h with
  | done => exact h'
  | skip hf _ ih => exact .skip hf (ih h')
  | visit hf hin _ _ ih =>
      rw [List.cons_append, List.cons_append, List.append_assoc]
      exact .visit hf hin (ih h')

/-- What a descent has still to visit stands on the stack of a walk. -/
theorem Descends.walks (h : Descends t depth ids seen out after) {stack rest : List (NodeId × ℕ)}
    (hrest : Walks t stack after rest) :
    Walks t (ids.map (·, depth) ++ stack) seen (out ++ rest) := by
  induction h generalizing stack rest with
  | done => exact hrest
  | skip hf _ ih => exact .skip hf (ih hrest)
  | visit hf _ _ ih₁ ih₂ =>
      rw [List.cons_append, List.append_assoc]
      exact .visit hf (ih₁ (ih₂ hrest))

/-- A walk has one result. -/
theorem Walks.functional {stack : List (NodeId × ℕ)} (h : Walks t stack seen out)
    (h' : Walks t stack seen out') : out = out' := by
  induction h generalizing out' with
  | done =>
      cases h'
      rfl
  | skip hf _ ih =>
      cases h' with
      | skip _ h' => exact ih h'
      | visit hf' _ => exact absurd hf' hf
  | visit hf _ ih =>
      cases h' with
      | skip hf' _ => exact absurd hf hf'
      | visit _ h' => rw [ih h']

/-- A descent from the root visits what a walk visits. -/
theorem Descends.eq_walk (h : Descends t 0 [t.root] [] out after) : out = t.walk := by
  have hwalks : Walks t [(t.root, 0)] [] out := by simpa using h.walks (.done after)
  exact hwalks.functional t.walk_walks

theorem Descends.congr {u : Tree} (hsize : u.nodes.size = t.nodes.size)
    (h : Descends t depth ids seen out after)
    (hchildren : ∀ id ∈ out.map Prod.fst, u.children id = t.children id) :
    Descends u depth ids seen out after := by
  have hfresh : ∀ seen id, Fresh u.nodes seen id ↔ Fresh t.nodes seen id := by
    intro seen id
    rw [Fresh, Fresh, hsize]
  induction h with
  | done depth seen => exact .done depth seen
  | skip hf _ ih => exact .skip (mt (hfresh _ _).mp hf) (ih hchildren)
  | visit hf _ _ ih₁ ih₂ =>
      simp only [List.map_cons, List.map_append, List.forall_mem_cons, List.forall_mem_append]
        at hchildren
      obtain ⟨hid, hinner, hout⟩ := hchildren
      exact .visit ((hfresh _ _).mpr hf) (hid ▸ ih₁ hinner) (ih₂ hout)

end descents

/-! ### Levels -/

section levels
variable (nodes : Array Node) {seen after : List NodeId} {id : NodeId}

theorem card_unseen_nil : (unseen nodes []).card = nodes.size := by simp [unseen]

theorem card_unseen_cons (h : Fresh nodes seen id) :
    (unseen nodes (id :: seen)).card + 1 = (unseen nodes seen).card := by
  rw [unseen_cons]
  exact Finset.card_erase_add_one ((mem_unseen_iff nodes).mpr h)

theorem card_unseen_le (h : seen ⊆ after) :
    (unseen nodes after).card ≤ (unseen nodes seen).card := by
  refine Finset.card_le_card fun c hc => ?_
  obtain ⟨hlt, hafter⟩ := (mem_unseen_iff nodes).mp hc
  exact (mem_unseen_iff nodes).mpr ⟨hlt, fun hseen => hafter (h hseen)⟩

theorem not_fresh_of_card_unseen (h : (unseen nodes seen).card ≤ 0) : ¬ Fresh nodes seen id := by
  intro hf
  have := card_unseen_cons nodes hf
  omega

end levels

/-- Every descent ends. -/
theorem exists_descends (t : Tree) (levels : ℕ) : ∀ (ids : List NodeId) (depth : ℕ)
    (seen : List NodeId), (unseen t.nodes seen).card ≤ levels →
      ∃ out after, Descends t depth ids seen out after := by
  induction levels with
  | zero =>
      intro ids depth seen hseen
      exact ⟨[], seen, .of_not_fresh fun _ _ => not_fresh_of_card_unseen t.nodes hseen⟩
  | succ levels ih =>
      intro ids
      induction ids with
      | nil => exact fun depth seen _ => ⟨[], seen, .done depth seen⟩
      | cons id ids ihids =>
          intro depth seen hseen
          by_cases hf : Fresh t.nodes seen id
          · -- The children see one place more, and their siblings no fewer than the children.
            have hcard := card_unseen_cons t.nodes hf
            obtain ⟨inner, between, hin⟩ := ih (t.children id) (depth + 1) (id :: seen) (by omega)
            have hle := card_unseen_le t.nodes hin.subset
            obtain ⟨out, after, hout⟩ := ihids depth between (by omega)
            exact ⟨_, after, .visit hf hin hout⟩
          · obtain ⟨out, after, hout⟩ := ihids depth seen hseen
            exact ⟨out, after, .skip hf hout⟩

/-- The descent from the root ends when it has visited what the walk visits. -/
theorem descends_walk (t : Tree) : ∃ after, Descends t 0 [t.root] [] t.walk after := by
  obtain ⟨out, after, h⟩ := t.exists_descends _ [t.root] 0 [] le_rfl
  exact ⟨after, h.eq_walk ▸ h⟩

theorem map_snd_segments (t : Tree) (id : NodeId) :
    (t.segments id).map Prod.snd = t.children id := by
  unfold segments children childrenAt node?
  cases t.nodes[id]? with
  | none => rfl
  | some n => exact n.map_snd_segments

end SyntaxLens.Tree

import Mathlib.Algebra.BigOperators.Fin
import Mathlib.Data.List.Nodup
import SyntaxLens.Tree.Basic

/-! # Traversals of an arena

Both traversals of an arena take places off a stack, pass over those that lie outside the arena or
were seen, and put the children of the others on the stack.  Nothing is asked of the arena: children
may be shared, may lead back up and may lie outside it.

* **Loops.**  `Walks` and `Links` are the two loops, as derivations that follow the stack until it
  is empty.  A loop that does not end has no derivation.
* **Steps.**  Every step takes one place off the stack, and `pending` falls by the children that the
  step puts there (`pending_cons`), so the steps that a traversal is given are never used up:
  `walk_walks` and `links_parents` say that `Tree.walk` and the parents of a tree are the results of
  the loops.  Both visit the arena in the same order.
* **Visits.**  A walk visits no place twice (`Walks.nodup`), visits what is on the stack
  (`Walks.mem_of_stack`) and every child of what it visits (`Walks.mem_of_child`), and comes to
  whatever is not on the stack from a parent that it visited earlier (`Walks.origin`).
* **Parents.**  The loop gives every place the first visited node that has it as a child
  (`Links.lookup_eq`), and none to a place that was seen or lies outside (`Links.lookup_stale`). -/

namespace SyntaxLens.Tree

section pending
variable (nodes : Array Node)

/-- A place that a traversal visits when it comes upon it. -/
def Fresh (seen : List NodeId) (id : NodeId) : Prop := id < nodes.size ∧ id ∉ seen

instance (seen : List NodeId) : DecidablePred (Fresh nodes seen) :=
  fun id => inferInstanceAs (Decidable (id < nodes.size ∧ id ∉ seen))

/-- The places of the arena that have not been seen. -/
def unseen (seen : List NodeId) : Finset NodeId := (Finset.range nodes.size).filter (· ∉ seen)

/-- The number of filled child slots in the nodes that have not been seen. -/
def pending (seen : List NodeId) : ℕ :=
  ∑ id ∈ (Finset.range nodes.size).filter (· ∉ seen), (childrenAt nodes id).length

theorem fresh_cons_iff {seen : List NodeId} {id c : NodeId} :
    Fresh nodes (id :: seen) c ↔ c ≠ id ∧ Fresh nodes seen c := by
  simp only [Fresh, List.mem_cons]
  tauto

theorem mem_unseen_iff {seen : List NodeId} {id : NodeId} :
    id ∈ unseen nodes seen ↔ Fresh nodes seen id := by
  rw [unseen, Finset.mem_filter, Finset.mem_range]
  rfl

theorem unseen_cons (seen : List NodeId) (id : NodeId) :
    unseen nodes (id :: seen) = (unseen nodes seen).erase id := by
  ext c
  rw [Finset.mem_erase, mem_unseen_iff, mem_unseen_iff, fresh_cons_iff]

theorem pending_cons {seen : List NodeId} {id : NodeId} (h : Fresh nodes seen id) :
    (childrenAt nodes id).length + pending nodes (id :: seen) = pending nodes seen := by
  have herase := unseen_cons nodes seen id
  unfold unseen at herase
  rw [pending, pending, herase]
  exact Finset.add_sum_erase _ (fun id => (childrenAt nodes id).length)
    ((mem_unseen_iff nodes).mpr h)

theorem visits_eq : visits nodes = 1 + pending nodes [] := by
  have hfold : ∀ l : List Node, l.foldr (fun n filled => n.children.length + filled) 1 =
      1 + (l.map fun n => n.children.length).sum := by
    intro l
    induction l with
    | nil => rfl
    | cons n l ih =>
        rw [List.foldr_cons, ih, List.map_cons, List.sum_cons]
        omega
  have hsum : pending nodes [] = (nodes.toList.map fun n => n.children.length).sum := by
    rw [pending, Finset.filter_true_of_mem (by simp), Finset.sum_range,
      ← Fin.sum_univ_fun_getElem]
    refine Finset.sum_congr rfl fun i _ => ?_
    simp [childrenAt]
  rw [visits, hfold, hsum]

end pending

/-! ### The walk -/

/-- The walk with this stack and these places seen ends, after visits to `out`. -/
inductive Walks (t : Tree) :
    (stack : List (NodeId × ℕ)) → (seen : List NodeId) → (out : List (NodeId × ℕ)) → Prop
  | done (seen : List NodeId) : Walks t [] seen []
  | skip {id depth : ℕ} {stack out : List (NodeId × ℕ)} {seen : List NodeId} :
      ¬ Fresh t.nodes seen id → Walks t stack seen out → Walks t ((id, depth) :: stack) seen out
  | visit {id depth : ℕ} {stack out : List (NodeId × ℕ)} {seen : List NodeId} :
      Fresh t.nodes seen id →
      Walks t ((t.children id).map (·, depth + 1) ++ stack) (id :: seen) out →
      Walks t ((id, depth) :: stack) seen ((id, depth) :: out)

section walk
variable (t : Tree)

/-- What a traversal asks of a place decides whether it is fresh. -/
theorem contains_or_not_has_iff (seen : List NodeId) (id : NodeId) :
    (seen.contains id || !t.has id) = true ↔ ¬ Fresh t.nodes seen id := by
  simp only [Fresh, not_and_or, not_not, has]
  simp [or_comm]

theorem walkFrom_of_fresh {seen : List NodeId} {id : NodeId} (h : Fresh t.nodes seen id)
    (steps depth : ℕ) (stack : List (NodeId × ℕ)) :
    t.walkFrom (steps + 1) ((id, depth) :: stack) seen =
      (id, depth) ::
        t.walkFrom steps ((t.children id).map (·, depth + 1) ++ stack) (id :: seen) := by
  have hc : ¬ (seen.contains id || !t.has id) = true :=
    mt (t.contains_or_not_has_iff seen id).mp (not_not_intro h)
  rw [walkFrom, if_neg hc]

theorem walkFrom_of_not_fresh {seen : List NodeId} {id : NodeId} (h : ¬ Fresh t.nodes seen id)
    (steps depth : ℕ) (stack : List (NodeId × ℕ)) :
    t.walkFrom (steps + 1) ((id, depth) :: stack) seen = t.walkFrom steps stack seen := by
  rw [walkFrom, if_pos ((t.contains_or_not_has_iff seen id).mpr h)]

/-- A walk that is given a step for everything on the stack and everything pending ends. -/
theorem walkFrom_walks (steps : ℕ) : ∀ (stack : List (NodeId × ℕ)) (seen : List NodeId),
    stack.length + pending t.nodes seen ≤ steps →
      Walks t stack seen (t.walkFrom steps stack seen) := by
  induction steps with
  | zero =>
      intro stack seen h
      cases stack with
      | nil => exact .done seen
      | cons _ _ => simp at h
  | succ steps ih =>
      intro stack seen h
      match stack, h with
      | [], _ => exact .done seen
      | (id, depth) :: stack, h =>
          rw [List.length_cons] at h
          by_cases hf : Fresh t.nodes seen id
          · have hp := pending_cons t.nodes hf
            rw [t.walkFrom_of_fresh hf]
            refine .visit hf (ih _ _ ?_)
            rw [List.length_append, List.length_map, children]
            omega
          · rw [t.walkFrom_of_not_fresh hf]
            exact .skip hf (ih _ _ (by omega))

theorem walk_walks : Walks t [(t.root, 0)] [] t.walk :=
  t.walkFrom_walks _ _ _ (by rw [visits_eq, List.length_singleton])

variable {t} {stack out : List (NodeId × ℕ)} {seen : List NodeId}

/-- A walk visits no place twice and none that was seen or lies outside the arena. -/
theorem Walks.nodup (h : Walks t stack seen out) :
    (out.map Prod.fst).Nodup ∧ ∀ id ∈ out.map Prod.fst, Fresh t.nodes seen id := by
  induction h with
  | done => exact ⟨List.nodup_nil, by simp⟩
  | skip _ _ ih => exact ih
  | visit hf _ ih =>
      obtain ⟨hnd, hfresh⟩ := ih
      rw [List.map_cons, List.nodup_cons]
      refine ⟨⟨fun hmem => ((fresh_cons_iff _).mp (hfresh _ hmem)).1 rfl, hnd⟩, ?_⟩
      intro c hc
      rcases List.mem_cons.mp hc with rfl | hc
      · exact hf
      · exact ((fresh_cons_iff _).mp (hfresh c hc)).2

theorem Walks.mem_of_stack (h : Walks t stack seen out) {c : NodeId} (hc : c ∈ stack.map Prod.fst)
    (hfresh : Fresh t.nodes seen c) : c ∈ out.map Prod.fst := by
  induction h with
  | done => exact hc
  | skip hf _ ih =>
      rcases List.mem_cons.mp hc with rfl | hc
      · exact absurd hfresh hf
      · exact ih hc hfresh
  | @visit id depth stack out seen hf _ ih =>
      rw [List.map_cons, List.mem_cons]
      by_cases hid : c = id
      · exact .inl hid
      · refine .inr (ih ?_ ((fresh_cons_iff _).mpr ⟨hid, hfresh⟩))
        rw [List.map_append, List.mem_append]
        exact .inr ((List.mem_cons.mp hc).resolve_left hid)

theorem Walks.mem_of_child (h : Walks t stack seen out) {p c : NodeId}
    (hp : p ∈ out.map Prod.fst) (hc : c ∈ t.children p) (hfresh : Fresh t.nodes seen c) :
    c ∈ out.map Prod.fst := by
  induction h with
  | done => simp at hp
  | skip _ _ ih => exact ih hp hfresh
  | @visit id depth stack out seen hf hw ih =>
      rw [List.map_cons, List.mem_cons]
      by_cases hid : c = id
      · exact .inl hid
      · have hfresh' := (fresh_cons_iff t.nodes).mpr ⟨hid, hfresh⟩
        rcases List.mem_cons.mp hp with rfl | hp
        · refine .inr (hw.mem_of_stack ?_ hfresh')
          rw [List.map_append, List.map_map, List.mem_append]
          exact .inl (List.mem_map.mpr ⟨c, hc, rfl⟩)
        · exact .inr (ih hp hfresh')

/-- What a walk comes to is on the stack or is a child, one deeper, of an earlier visit. -/
theorem Walks.origin (h : Walks t stack seen out) {before after : List (NodeId × ℕ)}
    {x : NodeId × ℕ} (hout : out = before ++ x :: after) :
    x ∈ stack ∨ ∃ y ∈ before, x.1 ∈ t.children y.1 ∧ x.2 = y.2 + 1 := by
  induction h generalizing before with
  | done => simp at hout
  | skip _ _ ih => exact (ih hout).imp_left (List.mem_cons_of_mem _)
  | @visit id depth stack out seen _ _ ih =>
      cases before with
      | nil =>
          rw [List.nil_append, List.cons.injEq] at hout
          exact .inl (hout.1 ▸ List.mem_cons_self)
      | cons y before =>
          rw [List.cons_append, List.cons.injEq] at hout
          obtain ⟨rfl, hout⟩ := hout
          rcases ih hout with hmem | ⟨y, hy, hxy⟩
          · rcases List.mem_append.mp hmem with hmem | hmem
            · obtain ⟨c, hc, rfl⟩ := List.mem_map.mp hmem
              exact .inr ⟨(id, depth), List.mem_cons_self, hc, rfl⟩
            · exact .inl (List.mem_cons_of_mem _ hmem)
          · exact .inr ⟨y, List.mem_cons_of_mem _ hy, hxy⟩

end walk

/-! ### The parents -/

/-- The children that the linking of a node puts on the stack. -/
def adoptable (nodes : Array Node) (seen : List NodeId) (id : NodeId) : List NodeId :=
  (childrenAt nodes id).filter fun c => c < nodes.size && !seen.contains c

/-- The linking with this stack, these places seen and these parents noted ends with the parents
`table`, after it went through the places `order`. -/
inductive Links (nodes : Array Node) : (stack seen : List NodeId) →
    (parents : List (NodeId × NodeId)) → (order : List NodeId) →
    (table : List (NodeId × NodeId)) → Prop
  | done (seen : List NodeId) (parents : List (NodeId × NodeId)) :
      Links nodes [] seen parents [] parents
  | skip {id : NodeId} {stack seen order : List NodeId} {parents table : List (NodeId × NodeId)} :
      ¬ Fresh nodes seen id → Links nodes stack seen parents order table →
      Links nodes (id :: stack) seen parents order table
  | visit {id : NodeId} {stack seen order : List NodeId} {parents table : List (NodeId × NodeId)} :
      Fresh nodes seen id →
      Links nodes (adoptable nodes (id :: seen) id ++ stack) (id :: seen)
        ((adoptable nodes (id :: seen) id).foldl (adopt id) parents) order table →
      Links nodes (id :: stack) seen parents (id :: order) table

section links
variable {nodes : Array Node} {stack seen order : List NodeId}
  {parents table : List (NodeId × NodeId)}

theorem mem_adoptable_iff {id c : NodeId} :
    c ∈ adoptable nodes seen id ↔ c ∈ childrenAt nodes id ∧ Fresh nodes seen c := by
  simp [adoptable, Fresh]

theorem linkFrom_of_fresh {id : NodeId} (h : Fresh nodes seen id) (steps : ℕ) (stack : List NodeId)
    (parents : List (NodeId × NodeId)) :
    linkFrom nodes (steps + 1) (id :: stack) seen parents =
      linkFrom nodes steps (adoptable nodes (id :: seen) id ++ stack) (id :: seen)
        ((adoptable nodes (id :: seen) id).foldl (adopt id) parents) := by
  have hc : (seen.contains id || decide (nodes.size ≤ id)) = false := by
    simpa [Fresh, and_comm] using h
  rw [linkFrom, hc]
  rfl

theorem linkFrom_of_not_fresh {id : NodeId} (h : ¬ Fresh nodes seen id) (steps : ℕ)
    (stack : List NodeId) (parents : List (NodeId × NodeId)) :
    linkFrom nodes (steps + 1) (id :: stack) seen parents =
      linkFrom nodes steps stack seen parents := by
  have hc : (seen.contains id || decide (nodes.size ≤ id)) = true := by
    simp only [Fresh, not_and_or, not_not, not_lt] at h
    simpa using h.symm
  rw [linkFrom, hc]
  rfl

/-- Linking with a step for everything on the stack and everything pending runs to the end. -/
theorem Links.linkFrom_eq (h : Links nodes stack seen parents order table) {steps : ℕ}
    (hsteps : stack.length + pending nodes seen ≤ steps) :
    linkFrom nodes steps stack seen parents = table := by
  induction h generalizing steps with
  | done => cases steps <;> rfl
  | skip hf _ ih =>
      rw [List.length_cons] at hsteps
      obtain ⟨steps, rfl⟩ : ∃ k, steps = k + 1 := ⟨steps - 1, by omega⟩
      rw [linkFrom_of_not_fresh hf]
      exact ih (by omega)
  | @visit id stack seen order parents table hf _ ih =>
      rw [List.length_cons] at hsteps
      obtain ⟨steps, rfl⟩ : ∃ k, steps = k + 1 := ⟨steps - 1, by omega⟩
      have hp := pending_cons nodes hf
      have hle : (adoptable nodes (id :: seen) id).length ≤ (childrenAt nodes id).length :=
        List.length_filter_le _ _
      rw [linkFrom_of_fresh hf]
      refine ih ?_
      rw [List.length_append]
      omega

/-- Places that are not fresh stand on the stack for nothing. -/
theorem Links.append {before : List NodeId} (hb : ∀ id ∈ before, ¬ Fresh nodes seen id)
    (h : Links nodes stack seen parents order table) :
    Links nodes (before ++ stack) seen parents order table := by
  induction before with
  | nil => exact h
  | cons id before ih =>
      rw [List.forall_mem_cons] at hb
      exact .skip hb.1 (ih hb.2)

/-- Linking goes through the arena in the order of the walk.  Its stack lacks children that the walk
passes over, so the two stacks agree up to places that are not fresh. -/
theorem Walks.links {t : Tree} {wstack out : List (NodeId × ℕ)} (h : Walks t wstack seen out)
    (hstack : stack.filter (Fresh t.nodes seen) =
      (wstack.map Prod.fst).filter (Fresh t.nodes seen)) :
    ∃ table, Links t.nodes stack seen parents (out.map Prod.fst) table := by
  induction h generalizing stack parents with
  | done seen =>
      refine ⟨parents, ?_⟩
      have hnone : ∀ id ∈ stack, ¬ Fresh t.nodes seen id := by simpa using hstack
      simpa using Links.append hnone (.done seen parents)
  | @skip id depth _ _ seen hf _ ih =>
      refine ih ?_
      rwa [List.map_cons, List.filter_cons_of_neg (by simpa using hf)] at hstack
  | @visit id depth wstack out seen hf _ ih =>
      rw [List.map_cons, List.filter_cons_of_pos (by simpa using hf), List.filter_eq_cons_iff]
        at hstack
      obtain ⟨before, rest, rfl, hbefore, -, hrest⟩ := hstack
      have hsub : ∀ l : List NodeId, l.filter (Fresh t.nodes (id :: seen)) =
          (l.filter (Fresh t.nodes seen)).filter (Fresh t.nodes (id :: seen)) := by
        intro l
        rw [List.filter_filter]
        refine List.filter_congr fun c _ => ?_
        simp only [fresh_cons_iff, Bool.decide_and, decide_not, Bool.and_self_right]
      have hnext : (adoptable t.nodes (id :: seen) id ++ rest).filter (Fresh t.nodes (id :: seen)) =
          (((t.children id).map (·, depth + 1) ++ wstack).map Prod.fst).filter
            (Fresh t.nodes (id :: seen)) := by
        rw [List.filter_append, List.map_append, List.filter_append, List.map_map, hsub rest, hrest,
          ← hsub]
        congr 1
        rw [adoptable, List.filter_filter, children]
        simp [Function.comp_def, Fresh]
      obtain ⟨table, htable⟩ := ih hnext
      exact ⟨table, Links.append (by simpa using hbefore) (.visit hf htable)⟩

/-- The parents of a tree are what the loop finds, in the order of the walk. -/
theorem links_parents (t : Tree) :
    Links t.nodes [t.root] [] [] (t.walk.map Prod.fst) t.parents := by
  obtain ⟨table, htable⟩ : ∃ table, Links t.nodes [t.root] [] [] (t.walk.map Prod.fst) table :=
    t.walk_walks.links rfl
  have heq : t.parents = table := by
    rw [t.parents_eq]
    exact htable.linkFrom_eq (by rw [visits_eq, List.length_singleton])
  rwa [heq]

/-! ### The first parent -/

theorem lookup_foldl_adopt (p c : NodeId) (cs : List NodeId) :
    ∀ parents : List (NodeId × NodeId), (cs.foldl (adopt p) parents).lookup c =
      (parents.lookup c).or (if c ∈ cs then some p else none) := by
  induction cs with
  | nil => intro parents; simp
  | cons d cs ih =>
      intro parents
      rw [List.foldl_cons, ih, adopt]
      by_cases hcd : c = d
      · subst hcd
        cases hl : parents.lookup c <;> simp [hl]
      · have hbeq : (c == d) = false := by simpa using hcd
        cases hl : parents.lookup d <;> simp [List.lookup_cons, hcd, hbeq]

/-- A place that is not fresh keeps the parent it has. -/
theorem Links.lookup_stale (h : Links nodes stack seen parents order table) {c : NodeId}
    (hc : ¬ Fresh nodes seen c) : table.lookup c = parents.lookup c := by
  induction h with
  | done => rfl
  | skip _ _ ih => exact ih hc
  | @visit id _ seen _ _ _ _ _ ih =>
      have hc' : ¬ Fresh nodes (id :: seen) c := fun h => hc ((fresh_cons_iff nodes).mp h).2
      rw [ih hc', lookup_foldl_adopt, if_neg fun hmem => hc' (mem_adoptable_iff.mp hmem).2,
        Option.or_none]

/-- What has no parent yet gets the first node of the order that has it as a child.  Whatever was
seen or is on the stack must have its parent; only the place where the linking began has none. -/
theorem Links.lookup_eq (h : Links nodes stack seen parents order table) {start c : NodeId}
    (hinv : ∀ d, d ∈ seen ∨ d ∈ stack → d = start ∨ (parents.lookup d).isSome)
    (hstart : c ≠ start) (hc : c < nodes.size) :
    table.lookup c = (parents.lookup c).or (order.find? fun p => c ∈ childrenAt nodes p) := by
  induction h with
  | done => simp
  | skip _ _ ih =>
      exact ih fun d hd => hinv d (hd.imp_right (List.mem_cons_of_mem _))
  | @visit id stack seen order parents table hf _ ih =>
      have hlookup := fun d => lookup_foldl_adopt id d (adoptable nodes (id :: seen) id) parents
      have hinv' : ∀ d, d ∈ id :: seen ∨ d ∈ adoptable nodes (id :: seen) id ++ stack →
          d = start ∨
            (((adoptable nodes (id :: seen) id).foldl (adopt id) parents).lookup d).isSome := by
        intro d hd
        rw [hlookup, Option.isSome_or]
        by_cases hmem : d ∈ adoptable nodes (id :: seen) id
        · simp [hmem]
        · refine (hinv d ?_).imp_right fun h => by rw [h, Bool.true_or]
          simp only [List.mem_cons, List.mem_append, hmem, false_or] at hd ⊢
          tauto
      rw [ih hinv', hlookup, List.find?_cons]
      cases hl : parents.lookup c with
      | some p => rfl
      | none =>
          have hnew : ¬ (c ∈ seen ∨ c ∈ id :: stack) := by
            intro hmem
            have := (hinv c hmem).resolve_left hstart
            simp [hl] at this
          have hfresh : Fresh nodes (id :: seen) c :=
            (fresh_cons_iff nodes).mpr ⟨fun h => hnew (.inr (h ▸ List.mem_cons_self)),
              hc, fun h => hnew (.inl h)⟩
          by_cases hchild : c ∈ childrenAt nodes id
          · simp [mem_adoptable_iff, hchild, hfresh]
          · simp [mem_adoptable_iff, hchild]

end links

end SyntaxLens.Tree

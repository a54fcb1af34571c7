import SyntaxLens.Document.Load
import SyntaxLens.Proofs.Document.Everywhere
import SyntaxLens.Proofs.Tree.Gathering
import SyntaxLens.Proofs.Tree.Strict

/-! # Drafts make strict trees

A draft is shaped if the labels of the children fit the form of every node in it.  This is so as
drafts are read (`Draft.granted_labels`).

`Draft.place` numbers the nodes of a shaped draft from its first free place on, without a gap: the
place of the draft and the child slots of the nodes that it adds hold exactly the numbers it gives
out, each once (`Draft.place_perm`), and a child slot holds a later number than its owner has
(`Draft.place_lt`).  So the tree of a shaped draft is strict (`Draft.strict_toTree`). -/

namespace SyntaxLens

theorem Form.reading_perm (f : Form) : f.reading.Perm f.places := by
  cases f with
  | known kind _ => exact kind.reading_perm
  | unknown _ => exact .refl _

theorem Form.reading_nodup (f : Form) : (f.reading.map Place.role).Nodup :=
  (f.reading_perm.map Place.role).nodup_iff.mpr f.roles_nodup

namespace Draft

mutual

/-- The labels of the children fit the form, in every node. -/
def Shaped : Draft → Prop
  | .gap _ | .reference _ => True
  | .node form children => form.Labels (children.map Prod.fst) ∧ ShapedAll children

def ShapedAll : List (Role × Draft) → Prop
  | [] => True
  | (_, d) :: rest => Shaped d ∧ ShapedAll rest

end

mutual

theorem shaped_of_everywhere : ∀ {d : Draft}, d.Everywhere Form.Labels → d.Shaped
  | .gap _, _ | .reference _, _ => trivial
  | .node _ _, h => ⟨h.1, shapedAll_of_everywhereAll h.2⟩

theorem shapedAll_of_everywhereAll : ∀ {ds : List (Role × Draft)},
    EverywhereAll Form.Labels ds → ShapedAll ds
  | [], _ => trivial
  | (_, _) :: _, h => ⟨shaped_of_everywhere h.1, shapedAll_of_everywhereAll h.2⟩

end

/-! ### Drafts that were read -/

theorem fst_of_mem_childrenIn (rs : List (String × Reading)) (p : Place) :
    ∀ e ∈ childrenIn rs p, e.1 = p.role := by
  obtain ⟨r, a⟩ := p
  intro e he
  cases a <;> cases hl : rs.lookup r.name <;> simp [childrenIn, hl] at he
  · exact he ▸ rfl
  · exact he ▸ rfl
  · obtain ⟨d, _, rfl⟩ := he
    rfl

theorem length_childrenIn_one (rs : List (String × Reading)) (r : Role) :
    (childrenIn rs ⟨r, .one⟩).length = 1 := by
  cases hl : rs.lookup r.name <;> simp [childrenIn, hl]

/-- The children that stand in a place are those labelled with its role. -/
theorem filter_children (form : Form) (rs : List (String × Reading)) {p : Place}
    (hp : p ∈ form.places) :
    (form.reading.flatMap (childrenIn rs)).filter (·.1 == p.role) = childrenIn rs p :=
  filter_flatMap_role form.reading_nodup (fst_of_mem_childrenIn rs)
    (form.reading_perm.mem_iff.mpr hp)

theorem granted_labels : Granted Form.Labels := by
  refine fun form rs => ⟨fun r hr => ?_, fun p hp ha => ?_⟩
  · obtain ⟨e, he, rfl⟩ := List.mem_map.mp hr
    obtain ⟨p, hp, he⟩ := List.mem_flatMap.mp he
    rw [fst_of_mem_childrenIn rs p e he]
    exact List.mem_map_of_mem (form.reading_perm.mem_iff.mp hp)
  · rw [List.count, List.countP_map, List.countP_eq_length_filter]
    obtain ⟨r, a⟩ := p
    obtain rfl : a = .one := ha
    exact (congrArg List.length (filter_children form rs hp)).le.trans
      (length_childrenIn_one rs r).le

/-! ### Places -/

theorem map_fst_placeAll (ds : List (Role × Draft)) : ∀ next,
    (placeAll next ds).1.map Prod.fst = ds.map Prod.fst := by
  induction ds with
  | nil => intro next; rfl
  | cons e rest ih =>
      intro next
      simp only [placeAll, List.map_cons, ih]

theorem filterMap_placeAll_cons (next : ℕ) (e : Role × Draft) (rest : List (Role × Draft)) :
    (placeAll next (e :: rest)).1.filterMap Prod.snd = (e.2.place next).1.toList ++
      (placeAll (next + (e.2.place next).2.length) rest).1.filterMap Prod.snd := by
  obtain ⟨r, d⟩ := e
  rw [placeAll, List.filterMap_cons]
  cases (d.place next).1 <;> rfl

mutual

theorem place_perm : ∀ (d : Draft) (next : ℕ), d.Shaped →
    ((d.place next).1.toList ++ (d.place next).2.flatMap Node.children).Perm
      (List.range' next (d.place next).2.length)
  | .gap _, _, _ | .reference _, _, _ => .refl _
  | .node form children, next, h => by
      have hroot := Node.children_ofEntries_perm form (placeAll (next + 1) children).1
        (by rw [map_fst_placeAll]; exact h.1)
      have hbelow := placeAll_perm children (next + 1) h.2
      simp only [place, Option.toList_some, List.singleton_append, List.flatMap_cons,
        List.length_cons, List.range'_succ]
      exact ((hroot.append_right _).trans hbelow).cons next

theorem placeAll_perm : ∀ (ds : List (Role × Draft)) (next : ℕ), ShapedAll ds →
    ((placeAll next ds).1.filterMap Prod.snd ++
      (placeAll next ds).2.flatMap Node.children).Perm
      (List.range' next (placeAll next ds).2.length)
  | [], _, _ => .refl _
  | (r, d) :: rest, next, h => by
      have hfirst := place_perm d next h.1
      have hothers := placeAll_perm rest (next + (d.place next).2.length) h.2
      rw [filterMap_placeAll_cons]
      simp only [placeAll, List.flatMap_append, List.length_append, ← List.range'_append_1]
      refine List.Perm.trans ?_ (hfirst.append hothers)
      simp only [List.append_assoc]
      refine List.Perm.append_left _ ?_
      simp only [← List.append_assoc]
      exact List.perm_append_comm.append_right _

end

mutual

theorem place_lt : ∀ (d : Draft) (next : ℕ), d.Shaped → ∀ (i : ℕ) (n : Node),
    (d.place next).2[i]? = some n → ∀ c ∈ n.children, next + i < c
  | .gap _, _, _, i, n, hn | .reference _, _, _, i, n, hn => by simp [place] at hn
  | .node form children, next, h, i, n, hn => by
      intro c hc
      cases i with
      | zero =>
          obtain rfl : _ = n := by simpa [place] using hn
          have hroot := Node.children_ofEntries_perm form (placeAll (next + 1) children).1
            (by rw [map_fst_placeAll]; exact h.1)
          have hmem := (placeAll_perm children (next + 1) h.2).subset
            (List.mem_append_left _ (hroot.subset hc))
          rw [List.mem_range'_1] at hmem
          omega
      | succ i =>
          have := placeAll_lt children (next + 1) h.2 i n (by simpa [place] using hn) c hc
          omega

theorem placeAll_lt : ∀ (ds : List (Role × Draft)) (next : ℕ), ShapedAll ds → ∀ (i : ℕ) (n : Node),
    (placeAll next ds).2[i]? = some n → ∀ c ∈ n.children, next + i < c
  | [], _, _, i, n, hn => by simp [placeAll] at hn
  | (_, d) :: rest, next, h, i, n, hn => by
      intro c hc
      simp only [placeAll] at hn
      rcases Nat.lt_or_ge i (d.place next).2.length with hlt | hge
      · rw [List.getElem?_append_left hlt] at hn
        exact place_lt d next h.1 i n hn c hc
      · rw [List.getElem?_append_right hge] at hn
        have := placeAll_lt rest _ h.2 _ n hn c hc
        omega

end

/-- The tree of a shaped draft is strict. -/
theorem strict_toTree {form : Form} {children : List (Role × Draft)}
    (h : (Draft.node form children).Shaped) : (Draft.node form children).toTree.Strict := by
  have hperm := place_perm (.node form children) 0 h
  have hlt := place_lt (.node form children) 0 h
  generalize hns : ((Draft.node form children).place 0).2 = ns at hperm hlt
  have hpos : 0 < ns.length := by
    rw [← hns, place]
    exact Nat.succ_pos _
  have htree : (Draft.node form children).toTree = Tree.ofNodes ns.toArray 0 := by rw [toTree, hns]
  have hslots : (Tree.ofNodes ns.toArray 0).slots = ns.flatMap Node.children := rfl
  -- The root is given the place 0, so the slots hold the other numbers.
  have hcount : ∀ id,
      (0 :: ns.flatMap Node.children).count id = (List.range ns.length).count id := by
    intro id
    rw [List.range_eq_range']
    exact hperm.count_eq id
  rw [htree]
  refine ⟨rfl, by simpa [Tree.has, Tree.ofNodes] using hpos, ?_, ?_⟩
  · intro owner c hc
    obtain ⟨n, s, hn, hat⟩ := (Tree.mem_children_iff _ owner c).mp hc
    have hn' : ns[owner]? = some n := by simpa [Tree.node?, Tree.ofNodes] using hn
    have hc' := (n.mem_children_iff c).mpr ⟨s, hat⟩
    have hmem := hperm.subset (List.mem_cons_of_mem 0
      (List.mem_flatMap.mpr ⟨n, List.mem_of_getElem? hn', hc'⟩))
    rw [List.mem_range'_1] at hmem
    exact ⟨by simpa using hlt owner n hn' c hc', by simpa [Tree.has, Tree.ofNodes] using hmem⟩
  · intro id hhas hroot
    have hid : id < ns.length := by simpa [Tree.has, Tree.ofNodes] using hhas
    have hzero : (0 : NodeId) ≠ id := Ne.symm hroot
    have hone := hcount id
    rw [List.count_eq_one_of_mem List.nodup_range (List.mem_range.mpr hid),
      List.count_cons_of_ne hzero] at hone
    rw [hslots]
    exact hone

end Draft

end SyntaxLens

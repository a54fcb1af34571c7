import Mathlib.Data.List.Nodup
import SyntaxLens.Proofs.Fragment.Frames
import SyntaxLens.Proofs.Rendering.Rules
import SyntaxLens.Proofs.Tree.Cycles

/-! # The marks of a rendered node

A rendered node holds a composite for every node that it shows, and each is marked with its node,
path and focus.  `marksAt` lists these marks by the grammar, without plans and tables: a node comes
before the children that are drawn of it.  Rendering gives the same marks up to order
(`nodes_renderAt_perm`), whatever the tables.

`Shows` follows a path along children that are drawn.  A mark stands for the node at the end of such
a path (`exists_shows_of_mem_marksAt`), every such path that is shorter than the depth has its mark
(`mem_marksAt_of_shows`), and no two marks have the same path (`paths_marksAt_nodup`). -/

namespace SyntaxLens.Rendering

/-! ### Children that are drawn -/

section drawn
variable {t : Tree} {n : Node}

theorem field_of_mem_held {p : Place} {s : Segment} {c : NodeId} (h : (s, c) ∈ n.held p) :
    s.field = p.role.name := by
  unfold Node.held at h
  split at h
  · obtain ⟨id, -, hid⟩ := List.mem_map.mp h
    rw [← (Prod.mk.inj hid).1, Segment.single]
  · obtain ⟨⟨slot, i⟩, -, hslot⟩ := List.mem_filterMap.mp h
    obtain ⟨id, -, hid⟩ := Option.map_eq_some_iff.mp hslot
    rw [← (Prod.mk.inj hid).1, Segment.element]

/-- The children that are drawn are those in the arena that do not stand in a role left out. -/
theorem mem_drawn_iff (s : Segment) (c : NodeId) :
    (s, c) ∈ drawn t n ↔ n.at? s = some c ∧ t.has c ∧ ∀ r ∈ omitted t n, r.name ≠ s.field := by
  simp only [drawn, List.mem_flatMap, List.mem_filter, present, decide_eq_true_eq]
  constructor
  · rintro ⟨p, ⟨hp, hrole⟩, hheld, hhas⟩
    have hmem : (s, c) ∈ n.segments := by
      rw [n.segments_eq_held]
      exact List.mem_flatMap.mpr ⟨p, hp, hheld⟩
    refine ⟨(n.mem_segments_iff s c).mp hmem, hhas, fun r hr hname => hrole ?_⟩
    have hsame : r = p.role := Role.name_injective (hname.trans (field_of_mem_held hheld))
    exact hsame ▸ hr
  · rintro ⟨hat, hhas, hnames⟩
    have hmem := (n.mem_segments_iff s c).mpr hat
    rw [n.segments_eq_held] at hmem
    obtain ⟨p, hp, hheld⟩ := List.mem_flatMap.mp hmem
    exact ⟨p, ⟨hp, fun hr => hnames _ hr (field_of_mem_held hheld).symm⟩, hheld, hhas⟩

theorem step?_of_mem_drawn {id c : NodeId} {s : Segment} (hn : t.node? id = some n)
    (h : (s, c) ∈ drawn t n) : t.step? id s = some c := by
  obtain ⟨hat, hhas, -⟩ := (mem_drawn_iff s c).mp h
  exact (t.step?_eq_some_iff id s c).mpr ⟨⟨n, hn, hat⟩, hhas⟩

theorem segments_present_nodup (p : Place) : ((present t n p).map Prod.fst).Nodup := by
  obtain ⟨r, a⟩ := p
  cases a with
  | one =>
      rw [show (⟨r, .one⟩ : Place) = r.one from rfl, present_one]
      cases (n.child? r).filter t.has <;> simp
  | many =>
      rw [show (⟨r, .many⟩ : Place) = r.many from rfl, present_many, List.map_flatMap,
        List.nodup_flatMap]
      constructor
      · intro i _
        unfold slotDrawn
        cases (n.slots r)[i]?.join.filter t.has <;> simp
      · refine List.nodup_range.imp fun {i j} hij => ?_
        simp only [Function.onFun, slotDrawn, List.map_map, List.disjoint_left, List.mem_map]
        rintro s ⟨_, _, rfl⟩ ⟨_, _, hs⟩
        exact hij (Option.some.inj (Segment.mk.inj hs).2).symm

/-- No two of the children that are drawn stand in the same slot. -/
theorem segments_drawn_nodup : ((drawn t n).map Prod.fst).Nodup := by
  have hroles : (n.form.places.filter fun p => p.role ∉ omitted t n).Pairwise
      fun p q => p.role ≠ q.role :=
    (List.pairwise_map.mp n.form.roles_nodup).sublist List.filter_sublist
  rw [drawn, List.map_flatMap, List.nodup_flatMap]
  refine ⟨fun p _ => segments_present_nodup p, hroles.imp fun {p q} hpq => ?_⟩
  simp only [Function.onFun, List.disjoint_left, List.mem_map]
  rintro s ⟨⟨_, c⟩, hc, rfl⟩ ⟨⟨_, d⟩, hd, hs⟩
  have hp := field_of_mem_held (List.mem_filter.mp hc).1
  have hq := field_of_mem_held (List.mem_filter.mp hd).1
  exact hpq (Role.name_injective (hp.symm.trans ((congrArg Segment.field hs).symm.trans hq)))

end drawn

/-! ### Paths along children that are drawn -/

/-- The path can be followed along children that are drawn, from the first node to the second. -/
inductive Shows (t : Tree) : NodeId → Path → NodeId → Prop
  | here {id : NodeId} : t.has id → Shows t id [] id
  | down {id c d : NodeId} {n : Node} {s : Segment} {p : Path} : t.node? id = some n →
      (s, c) ∈ drawn t n → Shows t c p d → Shows t id (s :: p) d

section shows
variable {t : Tree} {id c d : NodeId} {p : Path}

theorem Shows.follow? (h : Shows t id p d) : t.follow? id p = some d := by
  induction h with
  | here => rfl
  | down hn hc _ ih => rw [t.follow?_cons, step?_of_mem_drawn hn hc]; exact ih

end shows

/-! ### Marks by the grammar -/

/-- The marks of a node and of what is drawn below it, to at most `depth` levels. -/
def marksAt (t : Tree) (focus : Option Path) : (depth : ℕ) → Path → NodeId → List Mark
  | 0, _, _ => []
  | depth + 1, path, id =>
    match t.node? id with
    | none => []
    | some n => ⟨id, n.tag, path, focus == some path⟩ ::
        (drawn t n).flatMap fun c => marksAt t focus depth (path ++ [c.1]) c.2

section marks
variable {t : Tree} {focus : Option Path}

theorem marksAt_of_node? {id : NodeId} {n : Node} (hn : t.node? id = some n) (depth : ℕ)
    (path : Path) : marksAt t focus (depth + 1) path id = ⟨id, n.tag, path, focus == some path⟩ ::
      (drawn t n).flatMap fun c => marksAt t focus depth (path ++ [c.1]) c.2 := by
  rw [marksAt, hn]

/-- A mark stands for the node at the end of a shown path, has its tag and is in focus exactly if
its path is. -/
theorem exists_shows_of_mem_marksAt {m : Mark} : ∀ {depth : ℕ} {path : Path} {id : NodeId},
    m ∈ marksAt t focus depth path id → ∃ p, m.path = path ++ p ∧ Shows t id p m.id ∧
      (t.node? m.id).map Node.tag = some m.tag ∧ m.focused = (focus == some m.path) := by
  intro depth
  induction depth with
  | zero => intro path id h; cases h
  | succ depth ih =>
      intro path id h
      cases hn : t.node? id with
      | none => simp [marksAt, hn] at h
      | some n =>
          rw [marksAt_of_node? hn, List.mem_cons] at h
          rcases h with rfl | h
          · exact ⟨[], (List.append_nil path).symm, .here (t.has_of_node? hn), by simp [hn], rfl⟩
          · obtain ⟨⟨s, c⟩, hc, hm⟩ := List.mem_flatMap.mp h
            obtain ⟨p, hp, hshows, hrest⟩ := ih hm
            exact ⟨s :: p, by rw [hp, List.append_assoc, List.singleton_append],
              .down hn hc hshows, hrest⟩

/-- Whatever is shown has its mark, if the depth suffices. -/
theorem mem_marksAt_of_shows {id d : NodeId} {p : Path} (h : Shows t id p d) :
    ∀ {depth : ℕ} (path : Path), p.length < depth →
      ∃ m ∈ marksAt t focus depth path id, m.path = path ++ p ∧ m.id = d := by
  induction h with
  | here hid =>
      intro depth path hlen
      obtain ⟨depth, rfl⟩ : ∃ k, depth = k + 1 := ⟨depth - 1, by simp at hlen; omega⟩
      obtain ⟨n, hn⟩ := t.exists_node? hid
      rw [marksAt_of_node? hn]
      exact ⟨_, List.mem_cons_self, (List.append_nil path).symm, rfl⟩
  | @down id c d n s p hn hc _ ih =>
      intro depth path hlen
      obtain ⟨depth, rfl⟩ : ∃ k, depth = k + 1 := ⟨depth - 1, by simp at hlen; omega⟩
      obtain ⟨m, hm, hpath, hid⟩ := ih (path ++ [s]) (by simp at hlen; omega)
      rw [marksAt_of_node? hn]
      refine ⟨m, List.mem_cons_of_mem _ (List.mem_flatMap.mpr ⟨(s, c), hc, hm⟩), ?_, hid⟩
      rw [hpath, List.append_assoc, List.singleton_append]

theorem paths_marksAt_nodup (depth : ℕ) : ∀ (path : Path) (id : NodeId),
    ((marksAt t focus depth path id).map Mark.path).Nodup := by
  induction depth with
  | zero => intro path id; exact List.nodup_nil
  | succ depth ih =>
      intro path id
      cases hn : t.node? id with
      | none => simp [marksAt, hn]
      | some n =>
          -- The paths below a child begin with the path of that child.
          have hbelow : ∀ c ∈ drawn t n,
              ∀ q ∈ (marksAt t focus depth (path ++ [c.1]) c.2).map Mark.path,
                ∃ p, q = path ++ c.1 :: p := by
            intro c _ q hq
            obtain ⟨m, hm, rfl⟩ := List.mem_map.mp hq
            obtain ⟨p, hp, -⟩ := exists_shows_of_mem_marksAt hm
            exact ⟨p, by rw [hp, List.append_assoc, List.singleton_append]⟩
          rw [marksAt_of_node? hn, List.map_cons, List.map_flatMap, List.nodup_cons,
            List.nodup_flatMap]
          refine ⟨?_, fun c _ => ih _ _, ?_⟩
          · intro hmem
            obtain ⟨c, hc, hq⟩ := List.mem_flatMap.mp hmem
            obtain ⟨p, hp⟩ := hbelow c hc _ hq
            simp at hp
          · refine (List.pairwise_map.mp segments_drawn_nodup).imp_of_mem ?_
            intro c d hc hd hcd q hqc hqd
            obtain ⟨p, rfl⟩ := hbelow c hc q hqc
            obtain ⟨p', hp'⟩ := hbelow d hd _ hqd
            exact hcd (List.cons.inj (List.append_cancel_left hp')).1

end marks

/-! ### Marks of a fragment -/

/-- Parts show the marks that the children called for show. -/
theorem nodesAll_displayAll (child : Table → Path → NodeId → Option Fragment) (path : Path)
    (parts : List Part) : Fragment.nodesAll (displayAll child path parts) =
      (calls.all parts).flatMap fun c =>
        (child c.table (path ++ [c.segment]) c.id).elim [] Fragment.nodes := by
  rw [displayAll_eq]
  refine Visitor.flatMap_calls rfl Fragment.nodesAll_append (fun _ => rfl) ?_ parts ?_
  · intro flow parts inner
    simp [shows, Fragment.nodesAll, Fragment.group, Fragment.nodes]
  · intro c _
    simp only [shows, display]
    cases child c.table (path ++ [c.segment]) c.id with
    | none => rfl
    | some f => cases c.continued <;> simp [Fragment.nodesAll, Fragment.nodes_continued]

/-- A rendered node has the marks that the grammar gives it, whatever the table. -/
theorem nodes_renderAt_perm (t : Tree) (focus : Option Path) (depth : ℕ) :
    ∀ (table : Table) (path : Path) (id : NodeId),
      ((renderAt t focus depth table path id).elim [] Fragment.nodes).Perm
        (marksAt t focus depth path id) := by
  induction depth with
  | zero => intro table path id; exact .refl _
  | succ depth ih =>
      intro table path id
      cases hn : t.node? id with
      | none => simp [renderAt, marksAt, hn]
      | some n =>
          obtain ⟨plan, hplan⟩ := exists_planFor? t n table
          have hparts : (Fragment.nodesAll (displayAll (renderAt t focus depth) path
              plan.parts)).Perm ((drawn t n).flatMap fun c =>
                marksAt t focus depth (path ++ [c.1]) c.2) := by
            rw [nodesAll_displayAll]
            refine .trans (.flatMap_left _ fun c _ => ih c.table (path ++ [c.segment]) c.id) ?_
            have hdrawn := (planFor?_draws hplan).flatMap_right fun c =>
              marksAt t focus depth (path ++ [c.1]) c.2
            rwa [drawnAll, List.flatMap_map] at hdrawn
          rw [marksAt_of_node? hn, renderAt, hn]
          simpa [hplan, Fragment.nodes] using hparts

end SyntaxLens.Rendering

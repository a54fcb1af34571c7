import SyntaxLens.Proofs.Rendering.Marks

/-! # Labels of rendered nodes

Rendering a node of any arena labels what it shows truthfully, wherever the node reaches no cycle:
`render_labels`.

* The recursion ends of itself.  The depth that bounds it cuts nothing off, since two depths beyond
  all paths give the same fragment (`renderAt_eq_of_length_lt`).
* The focus decides the flags and nothing else: without the flags, a rendering is the one that has
  no focus (`unfocused_renderAt`). -/

namespace SyntaxLens

namespace Fragment

mutual

/-- The fragment with nothing in focus. -/
def unfocused : Fragment → Fragment
  | .leaf l => .leaf l
  | .composite flow mark children =>
    .composite flow (mark.map fun m => { m with focused := false }) (unfocusedAll children)

def unfocusedAll : List Fragment → List Fragment
  | [] => []
  | f :: rest => unfocused f :: unfocusedAll rest

end

theorem unfocusedAll_append (a b : List Fragment) :
    unfocusedAll (a ++ b) = unfocusedAll a ++ unfocusedAll b := by
  induction a with
  | nil => rfl
  | cons f a ih => rw [List.cons_append, unfocusedAll, ih, unfocusedAll, List.cons_append]

theorem unfocused_continued (f : Fragment) : f.continued.unfocused = f.unfocused.continued := by
  cases f <;> rfl

end Fragment

namespace Rendering

/-! ### Depth -/

section depth

/-- What parts show depends on the children that they call for alone. -/
theorem displayAll_congr {child child' : Table → Path → NodeId → Option Fragment} (path : Path)
    (parts : List Part) (h : ∀ c ∈ calls.all parts,
      child c.table (path ++ [c.segment]) c.id = child' c.table (path ++ [c.segment]) c.id) :
    displayAll child path parts = displayAll child' path parts := by
  have hrelates : Visitor.Relates Eq (shows child path) (shows child' path) := by
    refine ⟨rfl, fun ha hb => by rw [ha, hb], fun _ => rfl, fun flow parts h => ?_⟩
    rw [Visitor.part_group, Visitor.part_group, h]
    rfl
  rw [displayAll_eq, displayAll_eq]
  refine hrelates.all parts fun c hc => ?_
  simp only [shows, display, h c hc]

theorem renderAt_of_node?_eq_none {t : Tree} {id : NodeId} (h : t.node? id = none)
    (focus : Option Path) (depth : ℕ) (table : Table) (path : Path) :
    renderAt t focus depth table path id = none := by
  cases depth <;> simp [renderAt, h]

theorem renderAt_of_node? {t : Tree} {id : NodeId} {n : Node} {table : Table} {plan : Plan}
    (hn : t.node? id = some n) (hplan : planFor? t n table = some plan) (focus : Option Path)
    (depth : ℕ) (path : Path) : renderAt t focus (depth + 1) table path id =
      some (.composite plan.flow (some ⟨id, n.tag, path, focus == some path⟩)
        (displayAll (renderAt t focus depth) path plan.parts)) := by
  simp [renderAt, hn, hplan]

/-- What is rendered for a node is a composite of the node, with the parts of a plan for it. -/
theorem exists_plan_of_renderAt {t : Tree} {focus : Option Path} {depth : ℕ} {table : Table}
    {path : Path} {id : NodeId} {f : Fragment}
    (h : renderAt t focus (depth + 1) table path id = some f) :
    ∃ n plan, t.node? id = some n ∧ planFor? t n table = some plan ∧
      f = .composite plan.flow (some ⟨id, n.tag, path, focus == some path⟩)
        (displayAll (renderAt t focus depth) path plan.parts) := by
  cases hn : t.node? id with
  | none =>
      rw [renderAt_of_node?_eq_none hn] at h
      cases h
  | some n =>
      obtain ⟨plan, hplan⟩ := exists_planFor? t n table
      rw [renderAt_of_node? hn hplan] at h
      exact ⟨n, plan, rfl, hplan, (Option.some.inj h).symm⟩

/-- Two depths beyond all paths give the same fragment. -/
theorem renderAt_eq_of_length_lt (t : Tree) (focus : Option Path) (depth : ℕ) :
    ∀ (depth' : ℕ) (id : NodeId), (∀ p c, t.follow? id p = some c → p.length < depth) →
      (∀ p c, t.follow? id p = some c → p.length < depth') →
      ∀ (table : Table) (path : Path),
        renderAt t focus depth table path id = renderAt t focus depth' table path id := by
  induction depth with
  | zero =>
      intro depth' id h
      cases h [] id rfl
  | succ depth ih =>
      intro depth' id h h' table path
      obtain ⟨depth', rfl⟩ : ∃ k, depth' = k + 1 := by
        have hpos := h' [] id rfl
        exact ⟨depth' - 1, by simp at hpos; omega⟩
      cases hn : t.node? id with
      | none => rw [renderAt_of_node?_eq_none hn, renderAt_of_node?_eq_none hn]
      | some n =>
          obtain ⟨plan, hplan⟩ := exists_planFor? t n table
          rw [renderAt_of_node? hn hplan, renderAt_of_node? hn hplan]
          congr 2
          refine displayAll_congr path plan.parts fun c hc => ?_
          -- A path from the child is one step shorter than the path from the node.
          have hstep := step?_of_mem_drawn hn (mem_drawn_of_mem_calls hplan hc)
          have hbelow : ∀ p d, t.follow? c.id p = some d →
              t.follow? id (c.segment :: p) = some d := by
            intro p d hp
            rw [t.follow?_cons, hstep]
            exact hp
          refine ih depth' c.id (fun p d hp => ?_) (fun p d hp => ?_) c.table (path ++ [c.segment])
          · have hlen := h _ d (hbelow p d hp)
            rw [List.length_cons] at hlen
            omega
          · have hlen := h' _ d (hbelow p d hp)
            rw [List.length_cons] at hlen
            omega

/-- From a node that reaches no cycle, a depth beyond the size of the arena changes nothing. -/
theorem renderAt_eq_of_size_le {t : Tree} {id : NodeId} (h : t.AcyclicFrom id)
    (focus : Option Path) {depth : ℕ} (hdepth : t.size ≤ depth) (table : Table) (path : Path) :
    renderAt t focus depth table path id = renderAt t focus t.size table path id := by
  cases hn : t.node? id with
  | none => rw [renderAt_of_node?_eq_none hn, renderAt_of_node?_eq_none hn]
  | some n =>
      have hlt : ∀ p c, t.follow? id p = some c → p.length < t.size :=
        fun p c hp => h.length_lt (t.has_of_node? hn) hp
      exact renderAt_eq_of_length_lt t focus depth t.size id
        (fun p c hp => (hlt p c hp).trans_le hdepth) hlt table path

theorem isSome_renderAt_iff (t : Tree) (focus : Option Path) (table : Table) (path : Path)
    (id : NodeId) : (renderAt t focus t.size table path id).isSome ↔ t.has id := by
  cases hn : t.node? id with
  | none =>
      rw [renderAt_of_node?_eq_none hn, ← t.isSome_node?_iff, hn]
      rfl
  | some n =>
      have hhas := t.has_of_node? hn
      obtain ⟨depth, hdepth⟩ := t.exists_size_eq_succ hn
      obtain ⟨plan, hplan⟩ := exists_planFor? t n table
      rw [hdepth, renderAt_of_node? hn hplan]
      exact ⟨fun _ => hhas, fun _ => rfl⟩

end depth

/-! ### Flags -/

section flags

theorem unfocused_displayAll (child : Table → Path → NodeId → Option Fragment) (path : Path)
    (parts : List Part) : Fragment.unfocusedAll (displayAll child path parts) =
      displayAll (fun table q id => (child table q id).map Fragment.unfocused) path parts := by
  rw [displayAll_eq, displayAll_eq]
  refine Visitor.map_all rfl Fragment.unfocusedAll_append (fun _ => rfl) (fun _ _ _ => rfl) parts ?_
  intro c _
  simp only [shows, display]
  cases child c.table (path ++ [c.segment]) c.id with
  | none => rfl
  | some f => cases c.continued <;> simp [Fragment.unfocusedAll, Fragment.unfocused_continued]

/-- Without its flags, a rendering is the one that has no focus. -/
theorem unfocused_renderAt (t : Tree) (focus : Option Path) (depth : ℕ) :
    ∀ (table : Table) (path : Path) (id : NodeId),
      (renderAt t focus depth table path id).map Fragment.unfocused =
        renderAt t none depth table path id := by
  induction depth with
  | zero => intro table path id; rfl
  | succ depth ih =>
      intro table path id
      cases hn : t.node? id with
      | none => rw [renderAt_of_node?_eq_none hn, renderAt_of_node?_eq_none hn]; rfl
      | some n =>
          obtain ⟨plan, hplan⟩ := exists_planFor? t n table
          have hchildren : (fun table q id =>
              (renderAt t focus depth table q id).map Fragment.unfocused) =
              renderAt t none depth := by
            funext table q id
            exact ih table q id
          rw [renderAt_of_node? hn hplan, renderAt_of_node? hn hplan, Option.map_some,
            Fragment.unfocused, unfocused_displayAll, hchildren]
          rfl

end flags

end Rendering

namespace Tree

variable (t : Tree)

section render
variable {t} {focus : Option Path} {id : NodeId} {f : Fragment}

theorem render_of_pathOf? {base : Path} (h : t.pathOf? id = some base) (focus : Option Path) :
    t.render focus id = Rendering.renderAt t focus t.size .main base id := by
  rw [render, h]

theorem render_of_pathOf?_eq_none (h : t.pathOf? id = none) (focus : Option Path) :
    t.render focus id = Rendering.renderAt t none t.size .main [] id := by
  rw [render, h]

/-- The marks of a rendered node are those that the grammar gives it. -/
theorem marks_renderAt {flag : Option Path} {base : Path}
    (h : Rendering.renderAt t flag t.size .main base id = some f) :
    f.nodes.Perm (Rendering.marksAt t flag t.size base id) := by
  have hperm := Rendering.nodes_renderAt_perm t flag t.size .main base id
  rwa [h] at hperm

theorem exists_marks_render (h : t.render focus id = some f) :
    ∃ flag base, f.nodes.Perm (Rendering.marksAt t flag t.size base id) := by
  cases hbase : t.pathOf? id with
  | some base => exact ⟨focus, base, marks_renderAt (render_of_pathOf? hbase focus ▸ h)⟩
  | none => exact ⟨none, [], marks_renderAt (render_of_pathOf?_eq_none hbase focus ▸ h)⟩

theorem paths_render_nodup (h : t.render focus id = some f) : (f.nodes.map Mark.path).Nodup := by
  obtain ⟨flag, base, hperm⟩ := exists_marks_render h
  exact (hperm.map Mark.path).nodup_iff.mpr (Rendering.paths_marksAt_nodup _ _ _)

theorem tag_of_mem_render (h : t.render focus id = some f) {m : Mark} (hm : m ∈ f.nodes) :
    (t.node? m.id).map Node.tag = some m.tag := by
  obtain ⟨flag, base, hperm⟩ := exists_marks_render h
  obtain ⟨p, -, -, htag, -⟩ := Rendering.exists_shows_of_mem_marksAt (hperm.mem_iff.mp hm)
  exact htag

/-- The marks of a node that the root reaches. -/
theorem mark_of_pathOf? {base : Path} (hbase : t.pathOf? id = some base)
    (h : t.render focus id = some f) {m : Mark} (hm : m ∈ f.nodes) :
    base <+: m.path ∧ t.resolve m.path = some m.id ∧ m.focused = (focus == some m.path) := by
  have hperm := marks_renderAt (render_of_pathOf? hbase focus ▸ h)
  obtain ⟨p, hpath, hshows, -, hfocused⟩ :=
    Rendering.exists_shows_of_mem_marksAt (hperm.mem_iff.mp hm)
  have hresolve := t.resolve_of_pathOf? hbase
  have hroot := has_root_of_resolve hresolve
  refine ⟨⟨p, hpath.symm⟩, ?_, hfocused⟩
  rw [t.resolve_eq_follow? hroot] at hresolve ⊢
  rw [hpath, t.follow?_append, hresolve]
  exact hshows.follow?

/-- The marks of a node that the root does not reach. -/
theorem mark_of_pathOf?_eq_none (hbase : t.pathOf? id = none) (h : t.render focus id = some f)
    {m : Mark} (hm : m ∈ f.nodes) : t.follow? id m.path = some m.id ∧ m.focused = false := by
  have hperm := marks_renderAt (render_of_pathOf?_eq_none hbase focus ▸ h)
  obtain ⟨p, hpath, hshows, -, hfocused⟩ :=
    Rendering.exists_shows_of_mem_marksAt (hperm.mem_iff.mp hm)
  rw [hpath, List.nil_append]
  exact ⟨hshows.follow?, hfocused⟩

theorem isSome_render_iff : (t.render focus id).isSome ↔ t.has id := by
  unfold render
  split <;> exact Rendering.isSome_renderAt_iff ..

/-- The focus decides nothing but the flags. -/
theorem unfocused_render (focus other : Option Path) : (t.render focus id).map Fragment.unfocused =
    (t.render other id).map Fragment.unfocused := by
  unfold render
  cases t.pathOf? id with
  | some base => simp only [Rendering.unfocused_renderAt]
  | none => rfl

end render

/-- From a node that reaches no cycle, rendering ends by itself, whatever the arena, and gives a
fragment for every node of the arena.  No two composites have the same path and each names the kind
of its node.  If the root reaches the node, the paths go on from its path and lead to the nodes, and
exactly what stands at the focus is in focus; otherwise the paths lead there from the node itself
and nothing is in focus.  The focus decides nothing but the flags. -/
theorem render_labels (id : NodeId) (hacyclic : t.AcyclicFrom id) (focus : Path) :
    (∀ (flag : Option Path) (depth : ℕ) (table : Table) (path : Path), t.size ≤ depth →
      Rendering.renderAt t flag depth table path id =
        Rendering.renderAt t flag t.size table path id) ∧
    ((t.render (some focus) id).isSome ↔ t.has id) ∧
    (∀ f, t.render (some focus) id = some f →
      (f.nodes.map Mark.path).Nodup ∧
      (∀ m ∈ f.nodes, (t.node? m.id).map Node.tag = some m.tag) ∧
      ((∃ p, t.resolve p = some id) → ∃ base, t.pathOf? id = some base ∧
        ∀ m ∈ f.nodes, base <+: m.path ∧ t.resolve m.path = some m.id ∧
          (m.focused = true ↔ m.path = focus)) ∧
      ((¬ ∃ p, t.resolve p = some id) →
        ∀ m ∈ f.nodes, t.follow? id m.path = some m.id ∧ m.focused = false)) ∧
    ∀ other : Path, (t.render (some focus) id).map Fragment.unfocused =
      (t.render (some other) id).map Fragment.unfocused := by
  have hreached : (∃ p, t.resolve p = some id) ↔ (t.pathOf? id).isSome :=
    (t.reached_tfae id).out 1 2
  refine ⟨fun flag depth table path hdepth =>
    Rendering.renderAt_eq_of_size_le hacyclic flag hdepth table path, isSome_render_iff, ?_,
    fun other => unfocused_render _ _⟩
  intro f hf
  refine ⟨paths_render_nodup hf, fun m hm => tag_of_mem_render hf hm, fun h => ?_, fun h m hm => ?_⟩
  · obtain ⟨base, hbase⟩ := Option.isSome_iff_exists.mp (hreached.mp h)
    refine ⟨base, hbase, fun m hm => ?_⟩
    obtain ⟨hpre, hresolve, hfocused⟩ := mark_of_pathOf? hbase hf hm
    refine ⟨hpre, hresolve, ?_⟩
    rw [hfocused, beq_iff_eq, Option.some.injEq, eq_comm]
  · rw [hreached, Option.not_isSome_iff_eq_none] at h
    exact mark_of_pathOf?_eq_none h hf hm

/-- An arena in which two statements are one node, and so are the two sides of it. -/
def twice : Array Node := #[
  .ofEntries (.known .blockStatement ()) [(.body, some 1), (.body, some 9), (.body, some 1)],
  .ofEntries (.known .assignmentExpression "=") [(.left, some 2), (.right, some 2)],
  .ofEntries (.known .identifier "x") []]

theorem render_labels_twice : (ofNodes twice 0).AcyclicFrom 1 ∧
    ∃ f, (ofNodes twice 0).render (some [⟨"body", some 0⟩, ⟨"right", none⟩]) 1 = some f ∧
      (f.nodes.map Mark.path).Nodup ∧
      ∀ m ∈ f.nodes, (ofNodes twice 0).resolve m.path = some m.id ∧
        (m.focused = true ↔ m.path = [⟨"body", some 0⟩, ⟨"right", none⟩]) := by
  have hlater : ∀ owner, ∀ c ∈ (ofNodes twice 0).children owner, owner < c := by
    intro owner c hc
    have hlt := (ofNodes twice 0).lt_size_of_mem_children hc
    have table : ∀ owner < 3, ∀ c ∈ (ofNodes twice 0).children owner, owner < c := by decide
    exact table owner hlt c hc
  have hacyclic := acyclicFrom_of_lt hlater 1
  obtain ⟨-, hsome, hlabels, -⟩ := render_labels (ofNodes twice 0) 1 hacyclic
    [⟨"body", some 0⟩, ⟨"right", none⟩]
  obtain ⟨f, hf⟩ := Option.isSome_iff_exists.mp (hsome.mpr (by decide))
  obtain ⟨hnodup, -, hreached, -⟩ := hlabels f hf
  obtain ⟨base, -, hmarks⟩ := hreached ⟨[⟨"body", some 0⟩], by decide⟩
  exact ⟨hacyclic, f, hf, hnodup, fun m hm => (hmarks m hm).2⟩

end Tree

end SyntaxLens

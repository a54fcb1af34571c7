import SyntaxLens.Proofs.Document.Loading
import SyntaxLens.Proofs.Focus.Moves
import SyntaxLens.Proofs.Rendering.Calls
import SyntaxLens.Proofs.Rendering.Labels

/-! # Subtrees in a rendering

In the rendering of a tree that was loaded, every node looks as it does when it is rendered alone,
with the same paths and the same focus (`subtrees_alike`).  Two places are exceptions: a variable
declaration in the head of a loop, and the declaration of an export.

* Whatever stands in a rendering below its first node was called for by the plan of a node
  (`exists_call_of_mem_inner`).
* The plan of the owner says through which table, and the table says what differs
  (`planFor?_suits`, `planFor?_eq_main`).
* A node that is rendered alone begins with the path that it has in the tree.  In a tree that was
  loaded every node has one owner, so this is the path that it has below its owner. -/

namespace SyntaxLens

theorem Node.at?_single (n : Node) (r : Role) : n.at? (.single r) = n.child? r := by
  have hfield : n.fieldNamed? r.name = n.field? r := by
    ext f
    rw [n.fieldNamed?_eq_some_iff]
    constructor
    · rintro ⟨r', hmem, hname⟩
      exact Role.name_injective hname ▸ n.field?_of_mem hmem
    · exact fun hf => ⟨r, mem_of_lookup_eq_some hf, rfl⟩
  rw [at?, child?, ← hfield]
  rfl

/-! ### Fragments in fragments -/

namespace Fragment

mutual

/-- All fragments inside of a fragment, in display order. -/
def inner : Fragment → List Fragment
  | .leaf _ => []
  | .composite _ _ children => subfragmentsAll children

def subfragmentsAll : List Fragment → List Fragment
  | [] => []
  | f :: rest => f :: inner f ++ subfragmentsAll rest

end

/-- A fragment and all fragments inside of it. -/
def subfragments (f : Fragment) : List Fragment := f :: f.inner

section inner
variable {C : Fragment} {m : Mark}

theorem subfragmentsAll_append (a b : List Fragment) :
    subfragmentsAll (a ++ b) = subfragmentsAll a ++ subfragmentsAll b := by
  induction a with
  | nil => rfl
  | cons f a ih => simp [subfragmentsAll, ih]

mutual

theorem mem_nodes_of_mem_inner (hm : C.mark? = some m) :
    ∀ f : Fragment, C ∈ f.inner → m ∈ f.nodes
  | .leaf _, h => absurd h List.not_mem_nil
  | .composite _ _ children, h =>
    List.mem_append_right _ (mem_nodesAll_of_mem_subfragmentsAll hm children h)

theorem mem_nodesAll_of_mem_subfragmentsAll (hm : C.mark? = some m) :
    ∀ fs : List Fragment, C ∈ subfragmentsAll fs → m ∈ nodesAll fs
  | [], h => absurd h List.not_mem_nil
  | f :: rest, h => by
      rw [nodesAll]
      rcases List.mem_append.mp h with h | h
      · refine List.mem_append_left _ ?_
        rcases List.mem_cons.mp h with rfl | h
        · cases C with
          | leaf _ => cases hm
          | composite _ mark _ =>
              obtain rfl : mark = some m := hm
              exact List.mem_cons_self
        · exact mem_nodes_of_mem_inner hm f h
      · exact List.mem_append_right _ (mem_nodesAll_of_mem_subfragmentsAll hm rest h)

end

end inner

end Fragment

namespace Rendering

/-- A fragment as it is shown in its place. -/
def placed (continued : Bool) (f : Fragment) : Fragment := if continued then f.continued else f

theorem inner_placed (continued : Bool) (f : Fragment) : (placed continued f).inner = f.inner := by
  cases continued <;> cases f <;> rfl

theorem mark?_placed (continued : Bool) (f : Fragment) : (placed continued f).mark? = f.mark? := by
  cases continued <;> cases f <;> rfl

section display
variable {child : Table → Path → NodeId → Option Fragment} {C : Fragment} {m : Mark}

theorem displayAll_append (path : Path) (a b : List Part) :
    displayAll child path (a ++ b) = displayAll child path a ++ displayAll child path b := by
  simp only [displayAll_eq, Visitor.all_append]

/-- A composite of a node that parts show belongs to a child that they call for. -/
theorem exists_call_of_mem_displayAll (hm : C.mark? = some m) (path : Path) (parts : List Part)
    (h : C ∈ Fragment.subfragmentsAll (displayAll child path parts)) :
    ∃ c ∈ calls.all parts, ∃ g, child c.table (path ++ [c.segment]) c.id = some g ∧
      (C = placed c.continued g ∨ C ∈ g.inner) := by
  let marked (fs : List Fragment) : List Fragment :=
    (Fragment.subfragmentsAll fs).filter fun C => C.mark?.isSome
  have hshown : marked (displayAll child path parts) = (calls.all parts).flatMap fun c =>
      marked (display child path (.child c.segment c.id c.table c.continued)) := by
    rw [displayAll_eq]
    refine Visitor.flatMap_calls rfl (fun a b => ?_) (fun _ => rfl) (fun flow parts inner => ?_)
      parts fun _ _ => rfl
    · simp only [marked, Fragment.subfragmentsAll_append, List.filter_append]
    · simp [marked, shows, Fragment.subfragmentsAll, Fragment.inner, Fragment.group,
        Fragment.mark?]
  have hC : C ∈ marked (displayAll child path parts) :=
    List.mem_filter.mpr ⟨h, by rw [hm]; rfl⟩
  rw [hshown] at hC
  obtain ⟨c, hc, hC⟩ := List.mem_flatMap.mp hC
  have hinner := (List.mem_filter.mp hC).1
  rw [display] at hinner
  cases hchild : child c.table (path ++ [c.segment]) c.id with
  | none =>
      rw [hchild] at hinner
      cases hinner
  | some g =>
      rw [hchild] at hinner
      have hplaced : C ∈ placed c.continued g :: (placed c.continued g).inner ++ [] := hinner
      rw [inner_placed, List.append_nil, List.mem_cons] at hplaced
      exact ⟨c, hc, g, hchild, hplaced⟩

end display

/-! ### Nodes and tables -/

section renderAt
variable {t : Tree} {focus : Option Path} {id : NodeId} {table : Table}

/-- The table decides something for a variable declaration in the head of a loop only. -/
theorem renderAt_eq_main (h : table = .loopHead →
    (t.node? id).bind Node.kind? ≠ some .variableDeclaration) (depth : ℕ) (path : Path) :
    renderAt t focus depth table path id = renderAt t focus depth .main path id := by
  cases depth with
  | zero => rfl
  | succ depth =>
      rw [renderAt, renderAt]
      cases hn : t.node? id with
      | none => rfl
      | some n =>
          rw [hn] at h
          simp only [Option.bind_eq_bind, Option.bind_some, planFor?_eq_main h]

/-- In the head of a loop a variable declaration stays on the line and has no semicolon. -/
theorem renderAt_variableDeclaration (focus : Option Path)
    (h : (t.node? id).bind Node.kind? = some .variableDeclaration) (depth : ℕ) (path : Path) :
    ∃ mark parts, renderAt t focus (depth + 1) .main path id =
        some (.composite .block (some mark) (parts ++ [.leaf ⟨.punctuation, ";"⟩])) ∧
      renderAt t focus (depth + 1) .loopHead path id =
        some (.composite .inline (some mark) parts) := by
  obtain ⟨n, hn, hkind⟩ := Option.bind_eq_some_iff.mp h
  obtain ⟨parts, hmain, hhead⟩ := planFor?_variableDeclaration (t := t) hkind
  refine ⟨_, displayAll (renderAt t focus depth) path parts, ?_, renderAt_of_node? hn hhead _ _ _⟩
  rw [renderAt_of_node? hn hmain, block, displayAll_append]
  rfl

theorem mark?_of_renderAt {depth : ℕ} {path : Path} {f : Fragment}
    (h : renderAt t focus depth table path id = some f) :
    ∃ mark, f.mark? = some mark ∧ mark.id = id ∧ mark.path = path := by
  cases depth with
  | zero => cases h
  | succ depth =>
      obtain ⟨n, plan, -, -, rfl⟩ := exists_plan_of_renderAt h
      exact ⟨_, rfl, rfl, rfl⟩

/-- Whatever is rendered is the composite of a node. -/
theorem exists_mark_of_renderAt (depth : ℕ) (table : Table) (path : Path) (id : NodeId)
    (f : Fragment) (h : renderAt t focus depth table path id = some f) :
    ∃ m, f.mark? = some m := by
  obtain ⟨m, hm, -⟩ := mark?_of_renderAt h
  exact ⟨m, hm⟩

end renderAt

/-- What is rendered inside of a node for another one was called for by the owner of the other. -/
theorem exists_call_of_mem_inner {t : Tree} (hacyclic : ∀ id, t.AcyclicFrom id)
    {focus : Option Path} {C : Fragment} {m : Mark} (hm : C.mark? = some m) (depth : ℕ) :
    ∀ (table : Table) (path : Path) (id : NodeId) (f : Fragment),
      (∀ p c, t.follow? id p = some c → p.length < depth) →
      renderAt t focus depth table path id = some f → C ∈ f.inner →
      ∃ owner n s table' continued g, t.node? owner = some n ∧ t.step? owner s = some m.id ∧
        Suits n.kind? s table' continued ∧
        renderAt t focus t.size table' m.path m.id = some g ∧ C = placed continued g := by
  induction depth with
  | zero => intro table path id f _ h; cases h
  | succ depth ih =>
      intro table path id f hlt h hC
      obtain ⟨n, plan, hn, hplan, rfl⟩ := exists_plan_of_renderAt h
      obtain ⟨⟨s, c, table', continued⟩, hcall, g, hg, hplaced⟩ :=
        exists_call_of_mem_displayAll hm path plan.parts hC
      have hstep := step?_of_mem_drawn hn (mem_drawn_of_mem_calls hplan hcall)
      have hsuits := planFor?_suits hplan _ hcall
      -- A path from the child is one step shorter than the path from the node.
      have hshort : ∀ p d, t.follow? c p = some d → p.length < depth := by
        intro p d hp
        have hlen := hlt (s :: p) d (by rw [t.follow?_cons, hstep]; exact hp)
        rw [List.length_cons] at hlen
        omega
      rcases hplaced with rfl | hbelow
      · obtain ⟨mark, hmark, hid, hpath⟩ := mark?_of_renderAt hg
        rw [mark?_placed, hmark] at hm
        obtain rfl := Option.some.inj hm
        subst hid
        have hsize : ∀ p d, t.follow? mark.id p = some d → p.length < t.size :=
          fun p d hp => (hacyclic mark.id).length_lt (t.has_of_step? hstep).2 hp
        refine ⟨id, n, s, table', continued, g, hn, hstep, hsuits, ?_, rfl⟩
        rw [← renderAt_eq_of_length_lt t focus depth t.size _ hshort hsize, hpath, hg]
      · exact ih table' (path ++ [s]) c g hshort hg hbelow

end Rendering

namespace Tree

/-! ### Places that make a difference -/

/-- The node is a variable declaration in the head of a loop. -/
def HeadsLoop (t : Tree) (id : NodeId) : Prop :=
  (t.node? id).bind Node.kind? = some .variableDeclaration ∧
    ∃ owner n r, t.node? owner = some n ∧ n.kind?.bind Rendering.headRole? = some r ∧
      n.child? r = some id

/-- The node is the declaration of an export. -/
def IsExported (t : Tree) (id : NodeId) : Prop :=
  ∃ owner n r, t.node? owner = some n ∧ n.kind?.bind Rendering.exportedRole? = some r ∧
    n.child? r = some id

theorem child?_of_step? {t : Tree} {owner id : NodeId} {n : Node} {r : Role}
    (hn : t.node? owner = some n) (hs : t.step? owner (.single r) = some id) :
    n.child? r = some id := by
  obtain ⟨⟨n', hn', hat⟩, -⟩ := (t.step?_eq_some_iff owner _ id).mp hs
  rw [← n.at?_single, ← Option.some.inj (hn'.symm.trans hn), hat]

namespace Strict

variable {t : Tree} (h : t.Strict) {owner owner' id : NodeId} {n n' : Node} {s : Segment} {r : Role}
include h

/-- The one child in a role is in no other place. -/
theorem eq_of_child? (hn : t.node? owner = some n) (hs : t.step? owner s = some id)
    (hn' : t.node? owner' = some n') (hr : n'.child? r = some id) : n' = n ∧ s = .single r := by
  rw [← n'.at?_single] at hr
  obtain ⟨rfl, hsegment⟩ := h.step?_unique hs (h.closed.step?_of_at? hn' hr)
  exact ⟨Option.some.inj (hn'.symm.trans hn), hsegment⟩

theorem not_root_of_child? (hn : t.node? owner = some n) (hr : n.child? r = some id) :
    id ≠ t.root := by
  rw [← n.at?_single] at hr
  exact h.ne_root_of_mem_children (t.mem_children_of_step? (h.closed.step?_of_at? hn hr))

theorem not_isExported_of_headsLoop (hhead : t.HeadsLoop id) : ¬ t.IsExported id := by
  rintro ⟨owner', n', r', hn', hexported, hr'⟩
  obtain ⟨-, owner, n, r, hn, hrole, hr⟩ := hhead
  have hs := h.closed.step?_of_at? hn ((n.at?_single r).trans hr)
  obtain ⟨rfl, -⟩ := h.eq_of_child? hn hs hn' hr'
  obtain ⟨kind, hkind, hrole⟩ := Option.bind_eq_some_iff.mp hrole
  rw [hkind, Option.bind_some, Rendering.exportedRole?_of_headRole? hrole] at hexported
  cases hexported

section calls
variable {focus : Option Path} {path : Path} {table : Table} {continued : Bool} {C g : Fragment}
  {m : Mark} (hn : t.node? owner = some n) (hs : t.step? owner s = some m.id)
  (hsuits : Rendering.Suits n.kind? s table continued)
  (hg : Rendering.renderAt t focus t.size table path m.id = some g)
  (hC : C = Rendering.placed continued g)
include hn hs hsuits hg hC

theorem inline_of_headsLoop (hm : C.mark? = some m) (hhead : t.HeadsLoop m.id) : ∃ parts,
    Rendering.renderAt t focus t.size .main path m.id =
        some (.composite .block (some m) (parts ++ [.leaf ⟨.punctuation, ";"⟩])) ∧
      C = .composite .inline (some m) parts := by
  obtain ⟨hkind, owner', n', r, hn', hrole, hr⟩ := hhead
  obtain ⟨rfl, rfl⟩ := h.eq_of_child? hn hs hn' hr
  obtain rfl : table = .loopHead := hsuits.1.mpr ⟨r, hrole, rfl⟩
  obtain ⟨depth, hdepth⟩ : ∃ k, t.size = k + 1 := by
    refine Nat.exists_eq_succ_of_ne_zero fun hsize => ?_
    rw [hsize] at hg
    cases hg
  obtain ⟨mark, parts, hmain, hinline⟩ :=
    Rendering.renderAt_variableDeclaration focus hkind depth path
  rw [hdepth] at hg ⊢
  obtain rfl := Option.some.inj (hinline.symm.trans hg)
  rw [hC, Rendering.mark?_placed] at hm
  obtain rfl : mark = m := Option.some.inj hm
  refine ⟨parts, hmain, ?_⟩
  rw [hC]
  cases continued <;> rfl

theorem alike_of_not_headsLoop (hhead : ¬ t.HeadsLoop m.id) :
    Rendering.renderAt t focus t.size .main path m.id = some g ∧
      (t.IsExported m.id → C = g.continued) ∧ (¬ t.IsExported m.id → C = g) := by
  obtain ⟨hloop, hline⟩ := hsuits
  refine ⟨?_, ?_, fun hnot => ?_⟩
  · rw [← hg]
    refine (Rendering.renderAt_eq_main (fun htable hkind => hhead ⟨hkind, ?_⟩) _ _).symm
    obtain ⟨r, hrole, rfl⟩ := hloop.mp htable
    exact ⟨owner, n, r, hn, hrole, child?_of_step? hn hs⟩
  · rintro ⟨owner', n', r, hn', hrole, hr⟩
    obtain ⟨rfl, rfl⟩ := h.eq_of_child? hn hs hn' hr
    rw [hC, Rendering.placed, if_pos (hline.mpr ⟨r, hrole, rfl⟩)]
  · have hnotContinued : ¬ continued = true := by
      intro hcontinued
      obtain ⟨r, hrole, rfl⟩ := hline.mp hcontinued
      exact hnot ⟨owner, n, r, hn, hrole, child?_of_step? hn hs⟩
    rw [hC, Rendering.placed, if_neg hnotContinued]

/-- What is rendered for a node in its place, and what is rendered for the node alone. -/
theorem alike_of_call (hm : C.mark? = some m) :
    ∃ D, Rendering.renderAt t focus t.size .main path m.id = some D ∧
      (t.HeadsLoop m.id → ∃ parts,
        D = .composite .block (some m) (parts ++ [.leaf ⟨.punctuation, ";"⟩]) ∧
          C = .composite .inline (some m) parts) ∧
      (t.IsExported m.id → C = D.continued) ∧
      (¬ t.HeadsLoop m.id → ¬ t.IsExported m.id → C = D) := by
  by_cases hhead : t.HeadsLoop m.id
  · obtain ⟨parts, hmain, hinline⟩ := h.inline_of_headsLoop hn hs hsuits hg hC hm hhead
    exact ⟨_, hmain, fun _ => ⟨parts, rfl, hinline⟩,
      fun hexported => absurd hexported (h.not_isExported_of_headsLoop hhead),
      fun hnothead => absurd hhead hnothead⟩
  · obtain ⟨hmain, hexported, hplain⟩ := h.alike_of_not_headsLoop hn hs hsuits hg hC hhead
    exact ⟨g, hmain, fun h => absurd h hhead, hexported, fun _ => hplain⟩

end calls

end Strict

/-- Whatever is rendered for a node inside the rendering of the whole tree is what the rendering of
this node alone gives, with the same paths and with the same composites in focus.  A variable
declaration in the head of a loop differs in that it stays on the line and loses its semicolon, and
the declaration of an export in that it stays on the line. -/
theorem subtrees_alike (json : Json) (t : Tree) (hload : Document.load json = .ok t)
    (focus : Option Path) :
    ∃ f, t.renderRoot focus = some f ∧ ∀ C ∈ f.subfragments, ∀ m, C.mark? = some m →
      ∃ D, t.render focus m.id = some D ∧
        (t.HeadsLoop m.id → ∃ parts,
          D = .composite .block (some m) (parts ++ [.leaf ⟨.punctuation, ";"⟩]) ∧
            C = .composite .inline (some m) parts) ∧
        (t.IsExported m.id → C = D.continued) ∧
        (¬ t.HeadsLoop m.id → ¬ t.IsExported m.id → C = D) := by
  obtain ⟨d, hd, rfl⟩ := (Document.load_eq_ok_iff json t).mp hload
  have hstrict := hd.strict
  generalize d.toTree = t at hstrict
  have hbase := t.pathOf?_root hstrict.has_root
  obtain ⟨f, hf⟩ := Option.isSome_iff_exists.mp (isSome_render_iff.mpr hstrict.has_root)
  refine ⟨f, hf, fun C hC m hm => ?_⟩
  rcases List.mem_cons.mp hC with rfl | hC
  · -- The root itself has no owner.
    have hroot : m.id = t.root := by
      rw [render_of_pathOf? hbase] at hf
      obtain ⟨mark, hmark, hid, -⟩ := Rendering.mark?_of_renderAt hf
      rw [Option.some.inj (hm.symm.trans hmark), hid]
    refine ⟨C, hroot ▸ hf, ?_, ?_, fun _ _ => rfl⟩
    · rintro ⟨-, owner, n, r, hn, -, hr⟩
      exact absurd hroot (hstrict.not_root_of_child? hn hr)
    · rintro ⟨owner, n, r, hn, -, hr⟩
      exact absurd hroot (hstrict.not_root_of_child? hn hr)
  · have hresolve := (mark_of_pathOf? hbase hf (Fragment.mem_nodes_of_mem_inner hm f hC)).2.1
    rw [render_of_pathOf? ((hstrict.resolve_eq_some_iff _ _).mp hresolve)]
    rw [render_of_pathOf? hbase] at hf
    have hlt : ∀ p c, t.follow? t.root p = some c → p.length < t.size :=
      fun p c hp => (hstrict.acyclicFrom t.root).length_lt hstrict.has_root hp
    obtain ⟨owner, n, s, table, continued, g, hn, hs, hsuits, hg, hplaced⟩ :=
      Rendering.exists_call_of_mem_inner hstrict.acyclicFrom hm t.size .main [] t.root f hlt hf hC
    exact hstrict.alike_of_call hn hs hsuits hg hplaced hm

/-- A loop that begins with a declaration, and an export of another one. -/
def exporting : Json :=
  let declaration : Json := .object [("type", .string "VariableDeclaration"), ("declarations",
    .array [.object [("type", .string "VariableDeclarator")]])]
  .object [("type", .string "Program"), ("body", .array [
    .object [("type", .string "ForStatement"), ("init", declaration)],
    .object [("type", .string "ExportNamedDeclaration"), ("declaration", declaration)]])]

/-- The declaration of the loop is in focus where it stands and alone. -/
theorem subtrees_alike_exporting : let focus : Path := [⟨"body", some 0⟩, ⟨"init", none⟩]
    ∃ t f, Document.load exporting = .ok t ∧ t.renderRoot focus = some f ∧
      (∃ m parts, m.focused = true ∧ t.HeadsLoop m.id ∧
        .composite .inline (some m) parts ∈ f.subfragments ∧
        t.render focus m.id =
          some (.composite .block (some m) (parts ++ [.leaf ⟨.punctuation, ";"⟩]))) ∧
      ∃ D m, D.mark? = some m ∧ t.IsExported m.id ∧ D.continued ∈ f.subfragments ∧
        t.render focus m.id = some D := by
  intro focus
  obtain ⟨t, hload, hloop, hexported, hmarks⟩ : ∃ t, Document.load exporting = .ok t ∧
      t.HeadsLoop 2 ∧ t.IsExported 5 ∧ (t.renderRoot focus).map (fun f =>
        (f.subfragments.filterMap Fragment.mark?).map fun m => (m.id, m.focused)) =
        some [(0, false), (1, false), (2, true), (3, false), (4, false), (5, false), (6, false)] :=
    ⟨_, rfl, ⟨by decide +kernel, 1, _, .init, rfl, by decide +kernel, by decide +kernel⟩,
      ⟨4, _, .declaration, rfl, by decide +kernel, by decide +kernel⟩, by decide +kernel⟩
  obtain ⟨f, hf, hall⟩ := subtrees_alike exporting t hload focus
  have hmarked : ∀ p ∈ [(2, true), (5, false)], ∃ C ∈ f.subfragments, ∃ m, C.mark? = some m ∧
      (m.id, m.focused) = p := by
    intro p hp
    rw [hf, Option.map_some, Option.some_inj] at hmarks
    have hmem : p ∈ (f.subfragments.filterMap Fragment.mark?).map fun m => (m.id, m.focused) := by
      rw [hmarks]
      revert p
      decide
    obtain ⟨m, hm, hmark⟩ := List.mem_map.mp hmem
    obtain ⟨C, hC, hCm⟩ := List.mem_filterMap.mp hm
    exact ⟨C, hC, m, hCm, hmark⟩
  refine ⟨t, f, hload, hf, ?_, ?_⟩
  · obtain ⟨C, hC, m, hm, hmark⟩ := hmarked (2, true) (by decide)
    obtain ⟨hid, hfocused⟩ := Prod.mk.inj hmark
    rw [← hid] at hloop
    obtain ⟨D, hD, hhead, -, -⟩ := hall C hC m hm
    obtain ⟨parts, rfl, rfl⟩ := hhead hloop
    exact ⟨m, parts, hfocused, hloop, hC, hD⟩
  · obtain ⟨C, hC, m, hm, hmark⟩ := hmarked (5, false) (by decide)
    obtain ⟨hid, -⟩ := Prod.mk.inj hmark
    rw [← hid] at hexported
    obtain ⟨D, hD, -, hline, -⟩ := hall C hC m hm
    obtain rfl := hline hexported
    exact ⟨D, m, by rw [← hm]; exact (Rendering.mark?_placed true D).symm, hexported, hC, hD⟩

end Tree

end SyntaxLens

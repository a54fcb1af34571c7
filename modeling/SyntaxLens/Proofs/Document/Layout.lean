import SyntaxLens.Proofs.Document.Reading
import SyntaxLens.Proofs.Tree.Gathering
import SyntaxLens.Proofs.Tree.Reachability

/-! # Paths in drafts

A path can be followed in a draft as in a tree.  `Draft.place` lays a draft out in the arena
(`Draft.Stored`): the node of the draft stands at its place and the parts of the draft stand behind
it.  One step in the arena is one step in the draft (`Draft.Stored.step?`), so a path resolves in
the tree of a draft exactly if it can be followed in the draft, and leads to what is laid out at the
place (`Draft.resolve_toTree`). -/

namespace SyntaxLens

namespace Draft

/-- One step from a node of a draft to a node below it. -/
def step? (d : Draft) (s : Segment) : Option Draft :=
  match d with
  | .node form children => (form.pick children s).bind node?
  | .gap _ | .reference _ => none

def follow? (d : Draft) : Path → Option Draft
  | [] => some d
  | s :: rest => (d.step? s).bind fun c => c.follow? rest

/-- The node that the draft is stands at the place `id`, and the parts of the draft behind it. -/
def Stored (nodes : List Node) (id : NodeId) (d : Draft) : Prop :=
  (d.place id).1 = some id ∧ (d.place id).2 <+: nodes.drop id

/-- The slot holds the place of the node that the draft is, and is empty if it is none. -/
def Filled (nodes : List Node) (slot : Option NodeId) (d : Draft) : Prop :=
  Option.Rel (Stored nodes) slot d.node?

variable {nodes : List Node}

theorem prefix_drop_of_append {next : ℕ} {first others : List Node}
    (h : first ++ others <+: nodes.drop next) :
    first <+: nodes.drop next ∧ others <+: nodes.drop (next + first.length) := by
  refine ⟨(List.prefix_append first others).trans h, ?_⟩
  obtain ⟨rest, hrest⟩ := h
  refine ⟨rest, ?_⟩
  rw [← List.drop_drop, ← hrest, List.append_assoc, List.drop_left]

theorem filled_placeAll (ds : List (Role × Draft)) : ∀ next : ℕ,
    (placeAll next ds).2 <+: nodes.drop next →
    List.Forall₂ (fun e e' => e.1 = e'.1 ∧ Filled nodes e.2 e'.2)
      (placeAll next ds).1 ds := by
  induction ds with
  | nil => intro next _; exact .nil
  | cons e rest ih =>
      intro next h
      obtain ⟨r, d⟩ := e
      obtain ⟨hfirst, hothers⟩ := prefix_drop_of_append h
      refine .cons ⟨rfl, ?_⟩ (ih _ hothers)
      cases d with
      | gap _ | reference _ => exact .none
      | node form children => exact .some ⟨rfl, hfirst⟩

section tree
variable {t : Tree} (ht : t.nodes = nodes.toArray)
include ht

theorem Stored.node? {id : NodeId} {form : Form} {children : List (Role × Draft)}
    (h : Stored nodes id (.node form children)) :
    t.node? id = some (.ofEntries form (placeAll (id + 1) children).1) ∧
      (placeAll (id + 1) children).2 <+: nodes.drop (id + 1) := by
  obtain ⟨rest, hrest⟩ := h.2
  simp only [place, List.cons_append] at hrest
  have hdrop : nodes.drop (id + 1) = (placeAll (id + 1) children).2 ++ rest := by
    rw [← List.drop_drop, ← hrest, List.drop_succ_cons, List.drop_zero]
  have hhead : nodes[id]? = some (.ofEntries form (placeAll (id + 1) children).1) := by
    rw [← List.head?_drop, ← hrest, List.head?_cons]
  exact ⟨by simpa [Tree.node?, ht] using hhead, ⟨rest, hdrop.symm⟩⟩

theorem Stored.has {id : NodeId} {d : Draft} (h : Stored nodes id d) : t.has id := by
  cases d with
  | gap _ | reference _ => cases h.1
  | node form children => exact t.has_of_node? (h.node? ht).1

theorem Stored.step? {id : NodeId} {d : Draft} (h : Stored nodes id d) (s : Segment) :
    Option.Rel (Stored nodes) (t.step? id s) (d.step? s) := by
  cases d with
  | gap _ | reference _ => cases h.1
  | node form children =>
      obtain ⟨hnode, hbelow⟩ := h.node? ht
      have hpick := form.pick_rel (filled_placeAll children (id + 1) hbelow) s
      have hstep : t.step? id s =
          (form.pick (placeAll (id + 1) children).1 s).join.filter (t.has ·) := by
        ext c
        rw [t.step?_eq_some_iff, ← Node.at?_ofEntries, Option.filter_eq_some_iff]
        simp [hnode]
      rw [hstep, Draft.step?]
      generalize form.pick (placeAll (id + 1) children).1 s = slot at hpick
      generalize form.pick children s = child at hpick
      cases hpick with
      | none => exact .none
      | @some slot child hslot =>
          unfold Filled at hslot
          rw [Option.join_some, Option.bind_some]
          generalize child.node? = target at hslot
          cases hslot with
          | none => exact .none
          | @some c target hc =>
              rw [Option.filter_some, if_pos (hc.has ht)]
              exact .some hc

theorem Stored.follow? (p : Path) : ∀ {id : NodeId} {d : Draft}, Stored nodes id d →
    Option.Rel (Stored nodes) (t.follow? id p) (d.follow? p) := by
  induction p with
  | nil => intro id d h; exact .some h
  | cons s rest ih =>
      intro id d h
      have hstep := h.step? ht s
      rw [Tree.follow?, Draft.follow?]
      generalize t.step? id s = child at hstep
      generalize d.step? s = below at hstep
      cases hstep with
      | none => exact .none
      | some hc => exact ih hc

end tree

/-- A path resolves in the tree of a draft as it is followed in the draft. -/
theorem resolve_toTree (form : Form) (children : List (Role × Draft)) (p : Path) :
    Option.Rel (Stored ((Draft.node form children).place 0).2)
      ((Draft.node form children).toTree.resolve p) ((Draft.node form children).follow? p) := by
  have hstored : Stored ((Draft.node form children).place 0).2 0 (.node form children) :=
    ⟨rfl, List.prefix_refl _⟩
  have hnodes : (Draft.node form children).toTree.nodes =
      ((Draft.node form children).place 0).2.toArray := rfl
  have hroot : (Draft.node form children).toTree.has (Draft.node form children).toTree.root :=
    hstored.has hnodes
  rw [Tree.resolve, if_pos hroot]
  exact hstored.follow? hnodes p

end Draft

end SyntaxLens

import SyntaxLens.Fragment.Basic

/-! # Leaves, marks and frames

The leaves and the marks of several fragments are those of one after the other, and leaves that are
empty are not printed (`shown`).

A frame is a fragment with a hole.  What a fragment in a frame holds is what the frame holds around
the hole and what the fragment holds (`Frame.countP_plug`, `Frame.leaves_plug`).  A fragment in
which something is in focus is a composite in focus, in some frame (`exists_plug`). -/

namespace SyntaxLens

/-! ### Leaves and marks -/

/-- Whether a leaf is printed; an empty one is skipped. -/
def Leaf.isShown (l : Leaf) : Bool := !l.text.isEmpty

/-- Whether there is anything but blanks in a leaf. -/
def Leaf.isLegible (l : Leaf) : Bool := !Text.isAllBlank l.text.toList

/-- The leaves that are printed. -/
def shown (leaves : List Leaf) : List Leaf := leaves.filter Leaf.isShown

theorem shown_append (a b : List Leaf) : shown (a ++ b) = shown a ++ shown b :=
  List.filter_append a b

namespace Fragment

theorem leavesAll_append (a b : List Fragment) :
    leavesAll (a ++ b) = leavesAll a ++ leavesAll b := by
  induction a with
  | nil => rfl
  | cons f a ih => rw [List.cons_append, leavesAll, ih, leavesAll, List.append_assoc]

theorem nodesAll_append (a b : List Fragment) : nodesAll (a ++ b) = nodesAll a ++ nodesAll b := by
  induction a with
  | nil => rfl
  | cons f a ih => rw [List.cons_append, nodesAll, ih, nodesAll, List.append_assoc]

theorem nodes_continued (f : Fragment) : f.continued.nodes = f.nodes := by
  cases f <;> rfl

/-! ### Frames -/

/-- A fragment with a hole in the place of one part. -/
inductive Frame where
  | hole
  | inside (flow : Flow) (mark : Option Mark) (left : List Fragment) (inner : Frame)
      (right : List Fragment)

namespace Frame

/-- The frame with a fragment in its hole. -/
def plug (f : Fragment) : Frame → Fragment
  | .hole => f
  | .inside flow mark left inner right => .composite flow mark (left ++ inner.plug f :: right)

/-- The leaves before the hole. -/
def before : Frame → List Leaf
  | .hole => []
  | .inside _ _ left inner _ => leavesAll left ++ inner.before

/-- The leaves after the hole. -/
def after : Frame → List Leaf
  | .hole => []
  | .inside _ _ _ inner right => inner.after ++ leavesAll right

/-- The marks around the hole. -/
def marks : Frame → List Mark
  | .hole => []
  | .inside _ mark left inner right => mark.toList ++ nodesAll left ++ inner.marks ++ nodesAll right

section plug
variable (frame : Frame) (f : Fragment)

theorem countP_plug (q : Mark → Bool) :
    (frame.plug f).nodes.countP q = frame.marks.countP q + f.nodes.countP q := by
  induction frame with
  | hole => simp [plug, marks]
  | inside flow mark left inner right ih =>
      rw [plug, nodes, nodesAll_append, nodesAll, marks]
      simp only [List.countP_append, ih]
      omega

/-- If a composite in focus is the only one, nothing is in focus around it or below it. -/
theorem unfocused_of_countP_plug {flow : Flow} {m : Mark} {children : List Fragment}
    (hm : m.focused = true)
    (h : (frame.plug (.composite flow (some m) children)).nodes.countP Mark.focused = 1) :
    (∀ m ∈ frame.marks, m.focused = false) ∧ ∀ m ∈ nodesAll children, m.focused = false := by
  rw [countP_plug, nodes, List.countP_append, Option.toList_some, List.countP_singleton,
    if_pos hm] at h
  have hframe : frame.marks.countP Mark.focused = 0 := by omega
  have hchildren : (nodesAll children).countP Mark.focused = 0 := by omega
  exact ⟨by simpa using hframe, by simpa using hchildren⟩

theorem leaves_plug : (frame.plug f).leaves = frame.before ++ f.leaves ++ frame.after := by
  induction frame with
  | hole => simp [plug, before, after]
  | inside flow mark left inner right ih =>
      rw [plug, leaves, leavesAll_append, leavesAll, ih, before, after]
      simp only [List.append_assoc]

end plug

end Frame

mutual

/-- A fragment with something in focus is a composite in focus, in some frame. -/
theorem exists_plug : ∀ f : Fragment, (∃ m ∈ f.nodes, m.focused = true) →
    ∃ frame flow m children, f = Frame.plug (.composite flow (some m) children) frame ∧
      m.focused = true
  | .leaf _, h => by
      obtain ⟨m, hm, -⟩ := h
      cases hm
  | .composite flow mark children, h => by
      obtain ⟨m, hm, hfocused⟩ := h
      rcases List.mem_append.mp hm with hm | hm
      · obtain rfl := Option.mem_toList.mp hm
        exact ⟨.hole, flow, m, children, rfl, hfocused⟩
      · obtain ⟨left, inner, right, flow', m', children', rfl, hfocused'⟩ :=
          exists_plugAll children ⟨m, hm, hfocused⟩
        exact ⟨.inside flow mark left inner right, flow', m', children', rfl, hfocused'⟩

theorem exists_plugAll : ∀ fs : List Fragment, (∃ m ∈ nodesAll fs, m.focused = true) →
    ∃ left inner right flow m children,
      fs = left ++ Frame.plug (.composite flow (some m) children) inner :: right ∧
        m.focused = true
  | [], h => by
      obtain ⟨m, hm, -⟩ := h
      cases hm
  | f :: rest, h => by
      obtain ⟨m, hm, hfocused⟩ := h
      rcases List.mem_append.mp hm with hm | hm
      · obtain ⟨inner, flow, m', children, rfl, hfocused'⟩ := exists_plug f ⟨m, hm, hfocused⟩
        exact ⟨[], inner, rest, flow, m', children, rfl, hfocused'⟩
      · obtain ⟨left, inner, right, flow, m', children, rfl, hfocused'⟩ :=
          exists_plugAll rest ⟨m, hm, hfocused⟩
        exact ⟨f :: left, inner, right, flow, m', children, rfl, hfocused'⟩

end

end Fragment

end SyntaxLens

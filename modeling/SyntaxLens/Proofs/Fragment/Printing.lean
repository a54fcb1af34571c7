import Mathlib.Data.List.Induction
import SyntaxLens.Fragment.Layout
import SyntaxLens.Proofs.Fragment.Frames

/-! # Runs of the printer

Printing a fragment changes the state in three ways only: a leaf is put on the line, the line is
ended, and the next leaf is glued; a composite in focus sets and resolves the focus besides.  What
the three keep (`Keeps`) is kept by printing any fragment that has nothing in focus
(`Keeps.print`).  A relation between two states can be kept as well, so two runs are compared by
what they do to one leaf.

A fragment that has one composite in focus is this composite in a frame (`exists_plug`), and a run
goes through the frame up to the composite and then through the rest (`Keeps.plug`). -/

namespace SyntaxLens

theorem Piece.isGap_of_isContent {p : Piece} (h : p.isContent = true) : p.isGap = false := by
  rw [isContent, Bool.and_eq_true] at h
  simpa using h.1

namespace Layout

/-! ### Steps -/

namespace State

variable (s : State) (c : Context)

/-- What comes between the line and a leaf that is put on it. -/
def lead (next : String) : List Piece :=
  if s.line.isEmpty then List.replicate c.depth ⟨.indent, c.unit⟩
  else if s.needsSpace c.owner next then [.space]
  else []

theorem isGap_of_mem_lead {next : String} {p : Piece} (h : p ∈ s.lead c next) :
    p.isGap = true := by
  unfold lead at h
  split at h
  · rw [(List.mem_replicate.mp h).2]
    rfl
  · split at h
    · rw [List.mem_singleton.mp h]
      rfl
    · cases h

theorem lead_congr {s' : State} (next : String) (hline : s.line = [] ↔ s'.line = [])
    (hprev : s.prev = s'.prev) (hglue : s.glue = s'.glue) : s.lead c next = s'.lead c next := by
  have hempty : s.line.isEmpty = s'.line.isEmpty := by
    rw [Bool.eq_iff_iff, List.isEmpty_iff, List.isEmpty_iff, hline]
  have hspace : s.needsSpace c.owner next = s'.needsSpace c.owner next := by
    rw [needsSpace, needsSpace, hprev, hglue]
  rw [lead, lead, hempty, hspace]

theorem separate_eq (next : String) :
    s.separate c next = { s with line := s.line ++ s.lead c next } := by
  unfold separate lead
  split
  · rename_i hempty
    rw [List.isEmpty_iff.mp hempty, List.nil_append]
  · split
    · rfl
    · rw [List.append_nil]

theorem put_of_isShown {l : Leaf} (h : l.isShown = true) : s.put c l =
    { s with
      line := s.line ++ s.lead c l.text ++ (if s.pending then [.focusOpen] else []) ++ [.ofLeaf l]
      prev := some l
      glue := false
      pending := false } := by
  have hfull : l.text.isEmpty = false := by simpa [Leaf.isShown] using h
  rw [put, hfull, separate_eq, openFocus]
  cases s.pending <;> simp

theorem put_of_not_isShown {l : Leaf} (h : l.isShown = false) : s.put c l = s := by
  have hempty : l.text.isEmpty = true := by simpa [Leaf.isShown] using h
  simp [put, hempty]

theorem closeFocus_of_pending (h : s.pending = true) : s.closeFocus c =
    { s with
      line := s.line ++ s.lead c "»«" ++ [.focusOpen, .focusClose]
      pending := false } := by
  rw [closeFocus, if_pos h, separate_eq]
  rfl

theorem closeFocus_of_line (h : s.pending = false) (hline : s.line ≠ []) :
    s.closeFocus c = { s with line := s.line ++ [.focusClose] } := by
  simp [closeFocus, h, hline]

theorem closeFocus_of_lines (h : s.pending = false) (hline : s.line = [])
    {above : List (List Piece)} {last : List Piece} (hlines : s.lines = above ++ [last]) :
    s.closeFocus c = { s with lines := above ++ [last ++ [.focusClose]] } := by
  simp [closeFocus, h, hline, hlines]

/-- The line shows something at its end. -/
def Tidy : Prop := ∀ p, s.line.getLast? = some p → p.isContent = true

/-- A tidy line is ended as it stands. -/
theorem flush_of_tidy (h : s.Tidy) : s.flush =
    { s with
      lines := s.lines ++ (if s.line.isEmpty then [] else [s.line])
      line := []
      prev := none
      glue := false } := by
  unfold flush
  cases hline : s.line using List.reverseRecOn with
  | nil => simp
  | append_singleton front p =>
      have hcontent : p.isContent = true := h p (by simp [hline])
      simp [Piece.isGap_of_isContent hcontent, hcontent]

end State

/-! ### Composites -/

/-- What encloses the children of a composite. -/
def Context.inner (c : Context) (flow : Flow) (mark : Option Mark) : Context where
  unit := c.unit
  depth := if flow == .block && mark.isNone then c.depth + 1 else c.depth
  owner := (mark.map Mark.tag).or c.owner

section composites
variable (c : Context) (k : Cohesion) (flow : Flow) (mark : Option Mark) (m : Mark)
  (children : List Fragment) (s : State)

theorem print_composite (h : ∀ m ∈ mark, m.focused = false) :
    print c (.composite flow mark children) s =
      if mark.isNone && children.isEmpty then s
      else (printAll (c.inner flow mark) (Cohesion.of (mark.map Mark.tag)) true children
        (s.flushIf (flow == .block))).flushIf (flow == .block) := by
  cases mark with
  | none => rw [print]; rfl
  | some m => rw [print]; simp [h m rfl, Context.inner]

theorem print_focused (h : m.focused = true) :
    print c (.composite flow (some m) children) s =
      ((printAll (c.inner flow (some m)) (Cohesion.of (some m.tag)) true children
        { s.flushIf (flow == .block) with pending := true }).closeFocus c).flushIf
          (flow == .block) := by
  rw [print]
  simp [h, Context.inner]

theorem printAll_append (first : Bool) (a b : List Fragment) :
    printAll c k first (a ++ b) s =
      printAll c k (first && a.isEmpty) b (printAll c k first a s) := by
  induction a generalizing first s with
  | nil => simp [printAll]
  | cons f a ih =>
      rw [List.cons_append, printAll, ih, printAll]
      simp

end composites

/-! ### What a run keeps -/

/-- The relation holds on when the same leaf is put on both lines, when both lines are ended, and
when the next leaf is glued in both states.  It may depend on the leaves that were printed; `ok`
says which leaves are considered. -/
structure Keeps (ok : Leaf → Prop) (R : List Leaf → State → State → Prop) : Prop where
  put : ∀ {ls s s'} (c : Context) (l : Leaf), l.isShown = true → ok l → R ls s s' →
    R (ls ++ [l]) (s.put c l) (s'.put c l)
  flush : ∀ {ls s s'}, R ls s s' → R ls s.flush s'.flush
  glue : ∀ {ls s s'}, R ls s s' → R ls { s with glue := true } { s' with glue := true }

namespace Keeps

open Fragment (Frame)

variable {ok : Leaf → Prop} {R R' : List Leaf → State → State → Prop} {ls : List Leaf}
  {s s' : State}

theorem flushIf (h : Keeps ok R) (block : Bool) (hs : R ls s s') :
    R ls (s.flushIf block) (s'.flushIf block) := by
  cases block with
  | false => exact hs
  | true => exact h.flush hs

theorem glueIf (h : Keeps ok R) (glued : Bool) (hs : R ls s s') :
    R ls (s.glueIf glued) (s'.glueIf glued) := by
  cases glued with
  | false => exact hs
  | true => exact h.glue hs

mutual

/-- Printing a fragment with nothing in focus keeps what its steps keep. -/
theorem print (h : Keeps ok R) (c : Context) (ls : List Leaf) {s s' : State} :
    ∀ f : Fragment, (∀ m ∈ f.nodes, m.focused = false) →
      (∀ l ∈ f.leaves, l.isShown = true → ok l) → R ls s s' →
      R (ls ++ shown f.leaves) (print c f s) (print c f s')
  | .leaf l, _, hok, hs => by
      rw [Layout.print, Layout.print, Fragment.leaves]
      cases hl : l.isShown with
      | true =>
          rw [show shown [l] = [l] from List.filter_cons_of_pos hl]
          exact h.put c l hl (hok l (by simp [Fragment.leaves]) hl) hs
      | false =>
          rw [show shown [l] = [] from List.filter_cons_of_neg (by simp [hl]), List.append_nil,
            State.put_of_not_isShown s c hl, State.put_of_not_isShown s' c hl]
          exact hs
  | .composite flow mark children, hcalm, hok, hs => by
      have hmark : ∀ m ∈ mark, m.focused = false := by
        intro m hm
        exact hcalm m (List.mem_append_left _ (Option.mem_toList.mpr hm))
      rw [print_composite c flow mark children s hmark, print_composite c flow mark children s' hmark]
      split
      · rename_i hskip
        rw [Bool.and_eq_true, List.isEmpty_iff] at hskip
        rw [hskip.2, show shown (Fragment.composite flow mark []).leaves = [] from rfl,
          List.append_nil]
        exact hs
      · exact h.flushIf _ (printAll h _ _ true ls children
          (fun m hm => hcalm m (List.mem_append_right _ hm)) hok (h.flushIf _ hs))

theorem printAll (h : Keeps ok R) (c : Context) (k : Cohesion) (first : Bool) (ls : List Leaf)
    {s s' : State} :
    ∀ fs : List Fragment, (∀ m ∈ Fragment.nodesAll fs, m.focused = false) →
      (∀ l ∈ Fragment.leavesAll fs, l.isShown = true → ok l) → R ls s s' →
      R (ls ++ shown (Fragment.leavesAll fs)) (printAll c k first fs s) (printAll c k first fs s')
  | [], _, _, hs => by
      rw [Layout.printAll, Layout.printAll, show shown (Fragment.leavesAll []) = [] from rfl,
        List.append_nil]
      exact hs
  | f :: rest, hcalm, hok, hs => by
      rw [Layout.printAll, Layout.printAll, Fragment.leavesAll, shown_append, ← List.append_assoc]
      refine printAll h c k false _ rest (fun m hm => hcalm m (List.mem_append_right _ hm))
        (fun l hl => hok l (List.mem_append_right _ hl)) (h.glueIf _ ?_)
      exact print h c ls f (fun m hm => hcalm m (List.mem_append_left _ hm))
        (fun l hl => hok l (List.mem_append_left _ hl)) (h.glueIf _ hs)

end

/-- The fragment in the hole of a frame does not hold to its neighbours, if it is a composite. -/
theorem attaches_plug (k : Cohesion) (frame : Frame) (flow : Flow) (mark : Option Mark)
    (children : List Fragment) :
    k.attaches (frame.plug (.composite flow mark children)) = false := by
  cases frame <;> rfl

/-- A run goes through a frame up to the composite in its hole, and from there through the rest.
`R` relates the two runs before the hole and `R'` after it. -/
theorem plug (hR : Keeps ok R) (hR' : Keeps ok R') {flow flow' : Flow} {mark mark' : Option Mark}
    {children children' : List Fragment} (middle : List Leaf) (frame : Frame) :
    ∀ (ls : List Leaf) {s s' : State} (c : Context), (∀ m ∈ frame.marks, m.focused = false) →
      (∀ l ∈ frame.before ++ frame.after, l.isShown = true → ok l) →
      (∀ c s s', R (ls ++ shown frame.before) s s' →
        R' (ls ++ shown frame.before ++ middle) (Layout.print c (.composite flow mark children) s)
          (Layout.print c (.composite flow' mark' children') s')) →
      R ls s s' →
      R' (ls ++ shown frame.before ++ middle ++ shown frame.after)
        (Layout.print c (frame.plug (.composite flow mark children)) s)
        (Layout.print c (frame.plug (.composite flow' mark' children')) s') := by
  induction frame with
  | hole =>
      intro ls s s' c _ _ hmiddle hs
      rw [show shown Frame.hole.after = [] from rfl, List.append_nil]
      exact hmiddle c s s' (by simpa [Frame.before, shown] using hs)
  | inside flow₁ mark₁ left inner right ih =>
      intro ls s s' c hcalm hok hmiddle hs
      simp only [Frame.marks, List.mem_append, or_imp, forall_and] at hcalm
      obtain ⟨⟨⟨hmark, hleft⟩, hinner⟩, hright⟩ := hcalm
      simp only [Frame.before, Frame.after, List.mem_append, or_imp, forall_and] at hok
      obtain ⟨⟨hokleft, hokbefore⟩, hokafter, hokright⟩ := hok
      have hmark₁ : ∀ m ∈ mark₁, m.focused = false := fun m hm =>
        hmark m (Option.mem_toList.mpr hm)
      have hfull : ∀ f : Fragment, ¬ (mark₁.isNone && (left ++ f :: right).isEmpty) = true := by
        simp
      rw [Frame.plug, Frame.plug, print_composite c flow₁ mark₁ _ s hmark₁,
        print_composite c flow₁ mark₁ _ s' hmark₁, if_neg (hfull _), if_neg (hfull _),
        printAll_append, printAll_append, Layout.printAll, Layout.printAll]
      simp only [attaches_plug, Bool.false_or, Bool.false_and, Bool.true_and]
      refine hR'.flushIf _ ?_
      -- What is left of the hole, the hole itself in its inner frame, and what is right of it.
      have hbefore := hR.printAll (c.inner flow₁ mark₁) (Cohesion.of (mark₁.map Mark.tag)) true
        ls left hleft hokleft (hR.flushIf (flow₁ == .block) hs)
      simp only [Frame.before, shown_append, List.append_assoc] at hmiddle
      have hhole := fun glued => ih (ls ++ shown (Fragment.leavesAll left))
        (c.inner flow₁ mark₁) hinner (fun l hl => (List.mem_append.mp hl).elim (hokbefore l) (hokafter l))
        (by simpa only [List.append_assoc] using hmiddle) (hR.glueIf glued hbefore)
      have hafter := fun glued => hR'.printAll (c.inner flow₁ mark₁)
        (Cohesion.of (mark₁.map Mark.tag)) false _ right hright hokright
        (hR'.glueIf false (hhole glued))
      simpa only [Frame.before, Frame.after, shown_append, List.append_assoc] using hafter _

end Keeps

end Layout

end SyntaxLens

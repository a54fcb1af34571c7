import Mathlib.Data.List.TakeWhile
import SyntaxLens.Proofs.Fragment.Printing
import SyntaxLens.Proofs.Fragment.Wrapping

/-! # What a layout holds

A layout loses no leaf that shows something, shows none twice and adds none: `legible_layout`.  The
focus may be anywhere and on any number of composites.

`State.legible` is what a state of the printer shows, the complete lines before the line begun.
Putting a leaf on the line adds the leaf; all other steps leave the view as it is, although a line
that is ended loses the gaps at its end and is dropped as a whole if it shows nothing. -/

namespace SyntaxLens

namespace Piece

/-- Whether the piece is a leaf with anything but blanks in it. -/
def isLegible (p : Piece) : Bool := p.isLeaf && !Text.isAllBlank p.text.toList

theorem isLegible_ofLeaf (l : Leaf) : (ofLeaf l).isLegible = l.isLegible := rfl

theorem isLegible_of_isGap {p : Piece} (h : p.isGap = true) : p.isLegible = false := by
  rw [isLegible, isLeaf_of_isGap h, Bool.false_and]

/-- What is legible shows something, so the line that it stands on is kept. -/
theorem isContent_of_isLegible {p : Piece} (h : p.isLegible = true) : p.isContent = true := by
  rw [isLegible, Bool.and_eq_true] at h
  have hgap : p.isGap = false := by
    by_contra hgap
    rw [isLeaf_of_isGap (by simpa using hgap)] at h
    exact absurd h.1 Bool.false_ne_true
  rw [isContent, hgap, h.2]
  rfl

end Piece

/-- The pieces of the leaves that show something. -/
def legiblePieces (leaves : List Leaf) : List Piece :=
  (leaves.filter Leaf.isLegible).map Piece.ofLeaf

theorem legiblePieces_append (a b : List Leaf) :
    legiblePieces (a ++ b) = legiblePieces a ++ legiblePieces b := by
  rw [legiblePieces, List.filter_append, List.map_append]
  rfl

namespace Layout

/-! ### Steps -/

theorem filter_isLegible_of_gaps {line : List Piece} (h : ∀ p ∈ line, p.isGap = true) :
    line.filter Piece.isLegible = [] :=
  List.filter_eq_nil_iff.mpr fun p hp => by simp [Piece.isLegible_of_isGap (h p hp)]

/-- The gaps at the end of a line hide nothing legible. -/
theorem filter_isLegible_trimmed (line : List Piece) :
    (line.reverse.dropWhile Piece.isGap).reverse.filter Piece.isLegible =
      line.filter Piece.isLegible := by
  have hgaps : (line.reverse.takeWhile Piece.isGap).reverse.filter Piece.isLegible = [] :=
    filter_isLegible_of_gaps fun p hp => List.mem_takeWhile_imp (List.mem_reverse.mp hp)
  calc (line.reverse.dropWhile Piece.isGap).reverse.filter Piece.isLegible
      = ((line.reverse.dropWhile Piece.isGap).reverse ++
          (line.reverse.takeWhile Piece.isGap).reverse).filter Piece.isLegible := by
        rw [List.filter_append, hgaps, List.append_nil]
    _ = line.filter Piece.isLegible := by
        rw [← List.reverse_append, List.takeWhile_append_dropWhile, List.reverse_reverse]

namespace State

variable (s : State) (c : Context)

/-- The legible leaves that a state holds, line by line. -/
def legible : List Piece := (s.lines.flatten ++ s.line).filter Piece.isLegible

theorem filter_isLegible_lead (next : String) : (s.lead c next).filter Piece.isLegible = [] :=
  filter_isLegible_of_gaps fun _ hp => s.isGap_of_mem_lead c hp

theorem legible_put (l : Leaf) : (s.put c l).legible = s.legible ++ legiblePieces [l] := by
  cases hl : l.isShown with
  | false =>
      have hempty : l.text = "" := by simpa [Leaf.isShown] using hl
      have hblank : l.isLegible = false := by rw [Leaf.isLegible, hempty]; rfl
      rw [s.put_of_not_isShown c hl, legiblePieces, List.filter_cons_of_neg (by simp [hblank])]
      exact (List.append_nil _).symm
  | true =>
      have hmark : (if s.pending then [Piece.focusOpen] else []).filter Piece.isLegible = [] := by
        split <;> rfl
      rw [s.put_of_isShown c hl]
      simp only [legible, List.filter_append, hmark, s.filter_isLegible_lead c, List.append_assoc]
      cases hok : l.isLegible <;> simp [legiblePieces, Piece.isLegible_ofLeaf, hok]

/-- A line that is dropped shows nothing. -/
theorem legible_flush : s.flush.legible = s.legible := by
  unfold flush
  dsimp only [legible]
  split
  · rw [List.append_nil, List.flatten_append, List.flatten_singleton, List.filter_append,
      filter_isLegible_trimmed, List.filter_append]
  · rename_i hnone
    have hline : s.line.filter Piece.isLegible = [] := by
      rw [← filter_isLegible_trimmed, List.filter_eq_nil_iff]
      intro p hp hlegible
      exact hnone (List.any_eq_true.mpr ⟨p, hp, Piece.isContent_of_isLegible hlegible⟩)
    rw [List.append_nil, List.filter_append, hline, List.append_nil]

theorem legible_closeFocus : (s.closeFocus c).legible = s.legible := by
  have hopen : Piece.focusOpen.isLegible = false := rfl
  have hclose : Piece.focusClose.isLegible = false := rfl
  cases hp : s.pending with
  | true =>
      rw [s.closeFocus_of_pending c hp]
      simp [legible, s.filter_isLegible_lead c, hopen, hclose]
  | false =>
      by_cases hline : s.line = []
      · rcases List.eq_nil_or_concat' s.lines with hlines | ⟨above, last, hlines⟩
        · simp [closeFocus, legible, hp, hline, hlines, hclose]
        · rw [s.closeFocus_of_lines c hp hline hlines]
          simp [legible, hlines, hclose]
      · rw [s.closeFocus_of_line c hp hline]
        simp [legible, hclose]

theorem legible_flushIf (block : Bool) : (s.flushIf block).legible = s.legible := by
  cases block with
  | false => rfl
  | true => exact s.legible_flush

theorem legible_glueIf (glued : Bool) : (s.glueIf glued).legible = s.legible := by
  cases glued <;> rfl

end State

/-! ### Runs -/

mutual

/-- Printing a fragment adds its legible leaves, wherever the focus is. -/
theorem legible_print (c : Context) : ∀ (f : Fragment) (s : State),
    (print c f s).legible = s.legible ++ legiblePieces f.leaves
  | .leaf l, s => s.legible_put c l
  | .composite flow mark children, s => by
      by_cases hfocus : ∀ m ∈ mark, m.focused = false
      · rw [print_composite c flow mark children s hfocus]
        split
        · rename_i hskip
          rw [Bool.and_eq_true, List.isEmpty_iff] at hskip
          rw [hskip.2]
          exact (List.append_nil _).symm
        · rw [State.legible_flushIf, legible_printAll, State.legible_flushIf]
          rfl
      · simp only [not_forall] at hfocus
        obtain ⟨m, rfl, hm⟩ := hfocus
        rw [print_focused c flow m children s (by simpa using hm), State.legible_flushIf,
          State.legible_closeFocus, legible_printAll]
        -- Waiting for the first leaf does not change the view.
        exact congrArg (· ++ _) (s.legible_flushIf (flow == .block))

theorem legible_printAll (c : Context) (k : Cohesion) :
    ∀ (fs : List Fragment) (first : Bool) (s : State),
      (printAll c k first fs s).legible = s.legible ++ legiblePieces (Fragment.leavesAll fs)
  | [], _, s => (List.append_nil _).symm
  | f :: rest, first, s => by
      rw [printAll, legible_printAll c k rest, State.legible_glueIf, legible_print c f,
        State.legible_glueIf, Fragment.leavesAll, legiblePieces_append, List.append_assoc]

end

end Layout

/-- The leaves in a layout that show something, read line by line, are those of the fragment, in the
same order and each with its text and class. -/
theorem Fragment.legible_layout (unit : String) (f : Fragment) :
    (f.layout unit).flatten.filter Piece.isLegible =
      (f.leaves.filter Leaf.isLegible).map Piece.ofLeaf := by
  have hend := (Layout.print ⟨unit, 0, none⟩ f .start).legible_flush
  rw [Layout.legible_print] at hend
  -- The last line is ended, so the lines are all there is.
  rwa [Layout.State.legible, show (Layout.State.flush _).line = [] from rfl, List.append_nil]
    at hend

end SyntaxLens

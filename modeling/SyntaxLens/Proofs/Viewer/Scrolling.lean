import SyntaxLens.Viewer.Screen

/-! # Scrolling

A pane shows its lines from an offset on, and the offset keeps the line in focus on the pane as long
as it can be that large (`lt_scrollOffset_add_iff`): an offset has sixteen bits.  So the lines in
focus of both panes are shown (`focused_row_drawn`), unless there are more than `maxOffset` lines
above the pane.

Where these lines stand on a screen, row by row, is a matter of how it is drawn
(`getElem?_draw_focus`). -/

namespace SyntaxLens.Viewer

/-- The largest offset. -/
def maxOffset : Nat := UInt16.size - 1

section offset
variable {line height : Nat}

theorem scrollOffset_of_lt (h : line < height) : scrollOffset line height = 0 := if_pos h

theorem scrollOffset_of_le (h : height ≤ line) :
    scrollOffset line height = min (line - height / 2) maxOffset := if_neg (Nat.not_lt.mpr h)

theorem scrollOffset_le (line height : Nat) : scrollOffset line height ≤ line := by
  rcases Nat.lt_or_ge line height with h | h
  · rw [scrollOffset_of_lt h]
    exact Nat.zero_le _
  · rw [scrollOffset_of_le h]
    omega

/-- A line is above the lower end of the pane exactly if the largest offset brings it there. -/
theorem lt_scrollOffset_add_iff (hheight : 0 < height) :
    line < scrollOffset line height + height ↔ line < maxOffset + height := by
  rcases Nat.lt_or_ge line height with h | h
  · rw [scrollOffset_of_lt h]
    omega
  · rw [scrollOffset_of_le h]
    omega

end offset

namespace Screen

/-! ### Panes -/

section panes
variable {height row i : Nat} {content : List Line × Option Nat} {line : Line}

theorem getElem?_visible (hrow : content.2 = some row) (hi : i < height) :
    (visible height content)[i]? = content.1[scrollOffset row height + i]? := by
  rw [visible, hrow, List.getElem?_take_of_lt hi, List.getElem?_drop]

/-- The line in focus is shown where the offset brings it. -/
theorem getElem?_visible_focus (hrow : content.2 = some row) (hheight : 0 < height)
    (hlt : row < maxOffset + height) :
    (visible height content)[row - scrollOffset row height]? = content.1[row]? := by
  have hle := scrollOffset_le row height
  have hshown := (lt_scrollOffset_add_iff hheight).mpr hlt
  rw [getElem?_visible hrow (by omega), Nat.add_sub_cancel' hle]

theorem length_visible_le (height : Nat) (content : List Line × Option Nat) :
    (visible height content).length ≤ height := List.length_take_le _ _

/-- The row of a pane in which a line is shown. -/
def lineRow (width : Nat) (line : Line) : ScreenRow :=
  framed width '│' '│' fun columns => rowOf columns .plain line

theorem length_pane (width height : Nat) (name : String) (content : List Line × Option Nat) :
    (pane width (height + 2) name content).length = height + 2 := by
  have hle := length_visible_le height content
  simp [pane]
  omega

theorem getElem?_pane (width : Nat) (name : String) (h : (visible height content)[i]? = some line) :
    (pane width (height + 2) name content)[i + 1]? = some (lineRow width line) := by
  obtain ⟨hi, -⟩ := List.getElem?_eq_some_iff.mp h
  rw [pane, List.append_assoc, List.singleton_append, List.getElem?_cons_succ,
    List.getElem?_append_left (by simp; omega), List.getElem?_map, List.getElem?_append_left hi, h]
  rfl

end panes

/-! ### The screen -/

section screen
variable {a : App} {width height i row : Nat} {l r : ScreenRow} {line : Line}

/-- The columns of the outline pane. -/
def leftWidth (a : App) (width : Nat) : Nat := min a.outlineWidth (width / 2)

def outline (a : App) (width : Nat) : List Line × Option Nat :=
  OutlinePane.lines (leftWidth a width - 2) a.model

def code (a : App) : List Line × Option Nat := CodePane.lines a.indent a.model

/-- Rows of the panes stand side by side, below the title and the upper edges. -/
theorem getElem?_draw (name : String) (hwidth : minWidth ≤ width)
    (hl : (pane (leftWidth a width) (height + 2) (paneName "Outline" (a.pane == .outline))
      (outline a width))[i]? = some l)
    (hr : (pane (width - leftWidth a width) (height + 2) (paneName "Code" (a.pane == .code))
      (code a))[i]? = some r) :
    (draw a name width (height + 4))[i + 1]? = some (l ++ r) := by
  have hpanes : (panes a width (height + 2))[i]? = some (l ++ r) :=
    List.getElem?_zipWith_eq_some.mpr ⟨l, r, hl, hr, rfl⟩
  obtain ⟨hi, -⟩ := List.getElem?_eq_some_iff.mp hpanes
  rw [draw, if_neg (Nat.not_lt.mpr hwidth), List.append_assoc, List.singleton_append,
    List.getElem?_cons_succ]
  exact (List.getElem?_append_left hi).trans hpanes

theorem exists_line_outline (h : (outline a width).2 = some row) :
    ∃ line, (outline a width).1[row]? = some line := by
  obtain ⟨hlt, -⟩ := List.findIdx?_eq_some_iff_getElem.mp h
  exact ⟨_, List.getElem?_eq_getElem (by simpa [outline, OutlinePane.lines] using hlt)⟩

theorem length_spansOfAll (inFocus : Bool) (text : List (List Piece)) :
    (CodePane.spansOfAll inFocus text).length = text.length := by
  induction text generalizing inFocus with
  | nil => rfl
  | cons pieces rest ih => rw [CodePane.spansOfAll, List.length_cons, List.length_cons, ih]

theorem exists_line_code (h : (code a).2 = some row) : ∃ line, (code a).1[row]? = some line := by
  obtain ⟨hlt, -⟩ := List.findIdx?_eq_some_iff_getElem.mp h
  exact ⟨_, List.getElem?_eq_getElem (by simpa [code, CodePane.lines, length_spansOfAll] using hlt)⟩

/-- Every row of a pane is there. -/
theorem exists_getElem?_pane (width : Nat) (name : String) (content : List Line × Option Nat)
    (h : i < height + 2) : ∃ r, (pane width (height + 2) name content)[i]? = some r :=
  ⟨_, List.getElem?_eq_getElem (by rwa [length_pane])⟩

end screen

/-- The line in focus of a pane is there, and is shown where the offset brings it. -/
theorem exists_visible_focus (a : App) (width : Nat) {content : List Line × Option Nat}
    (hcontent : content ∈ [outline a width, code a]) {height row : Nat} (hheight : 0 < height)
    (hrow : content.2 = some row) (hlt : row < maxOffset + height) :
    ∃ line, content.1[row]? = some line ∧
      (visible height content)[row - scrollOffset row height]? = some line := by
  have hline : ∃ line, content.1[row]? = some line := by
    obtain rfl | rfl : content = outline a width ∨ content = code a := by simpa using hcontent
    · exact exists_line_outline hrow
    · exact exists_line_code hrow
  obtain ⟨line, hline⟩ := hline
  exact ⟨line, hline, (getElem?_visible_focus hrow hheight hlt).trans hline⟩

/-- A pane shows its lines from an offset on, as many as it is high, among them the one in focus.

* An offset is no larger than the line that it is to show, and zero if that is shown without one.
  The line is above the lower end of the pane if the largest offset brings it there.
* Then the line in focus of either pane is shown, as many lines below the upper end of the pane as it
  is behind the offset. -/
theorem focused_row_drawn {height : Nat} (hheight : 0 < height) :
    (∀ line, scrollOffset line height ≤ line ∧ (line < height → scrollOffset line height = 0) ∧
      (line < scrollOffset line height + height ↔ line < maxOffset + height)) ∧
    ∀ (a : App) (width : Nat), ∀ content ∈ [outline a width, code a], ∀ row,
      content.2 = some row → row < maxOffset + height → ∃ line, content.1[row]? = some line ∧
        (visible height content)[row - scrollOffset row height]? = some line := by
  refine ⟨?_, ?_⟩
  · intro line
    exact ⟨scrollOffset_le line height, scrollOffset_of_lt, lt_scrollOffset_add_iff hheight⟩
  · intro a width content hcontent row hrow hlt
    exact exists_visible_focus a width hcontent hheight hrow hlt

/-- A program of three statements. -/
def strip : Json := .object [("type", .string "Program"), ("body", .array [
  .object [("type", .string "EmptyStatement")], .object [("type", .string "DebuggerStatement")],
  .object [("type", .string "EmptyStatement")]])]

/-- The viewer of a tree with the third statement in focus. -/
def lastInFocus (t : Tree) : App :=
  .start ⟨⟨t, [⟨"body", some 2⟩]⟩, t.walk.map Prod.fst⟩
    ⟨"ast", "  ", 24, 24, false, 250, "info"⟩ none

theorem focused_row_drawn_scrolled : ∃ t, Document.load strip = .ok t ∧
    let a := lastInFocus t
    (outline a 60).2 = some 3 ∧ scrollOffset 3 2 = 2 ∧ 3 < scrollOffset 3 2 + 2 ∧
    (∃ line, (outline a 60).1[3]? = some line ∧ (visible 2 (outline a 60))[1]? = some line) ∧
    (code a).2 = some 2 ∧ scrollOffset 2 2 = 1 ∧
    ∃ line, (code a).1[2]? = some line ∧ (visible 2 (code a))[1]? = some line := by
  refine ⟨_, rfl, ?_⟩
  intro a
  obtain ⟨hoffset, hshown⟩ := focused_row_drawn Nat.two_pos
  have hrow : (outline a 60).2 = some 3 := by decide +kernel
  have hrow' : (code a).2 = some 2 := by decide +kernel
  exact ⟨hrow, rfl, (hoffset 3).2.2.mpr (by decide),
    hshown a 60 (outline a 60) (by simp) 3 hrow (by decide), hrow', rfl,
    hshown a 60 (code a) (by simp) 2 hrow' (by decide)⟩

/-- More lines than an offset can pass, each with its number. -/
def numbered : List Line := (List.range 65537).map fun i => [.raw (toString i)]

/-- The last line is in focus, but a pane of one line shows the one above it. -/
theorem scrollOffset_too_small :
    ¬ 65536 < scrollOffset 65536 1 + 1 ∧ numbered[65536]? = some [.raw "65536"] ∧
      visible 1 (numbered, some 65536) = [[.raw "65535"]] := by
  have hlen : numbered.length = 65537 := by rw [numbered, List.length_map, List.length_range]
  refine ⟨by decide, ?_, ?_⟩
  · rw [numbered, List.getElem?_map, List.getElem?_range (by decide)]
    rfl
  · have hoffset : scrollOffset 65536 1 = 65535 := rfl
    simp only [visible, hoffset]
    rw [List.drop_eq_getElem_cons (by rw [hlen]; decide), List.take_succ_cons, List.take_zero]
    simp only [numbered, List.getElem_map, List.getElem_range]
    rfl

/-! ### Rows of the screen -/

/-- The line in focus of the outline is drawn on the left of the screen, and that of the code on the
right, as many rows below the title and the upper edge as it is behind the offset. -/
theorem getElem?_draw_focus {height width : Nat} (hheight : 0 < height) (a : App) (name : String)
    (hwidth : minWidth ≤ width) :
    (∀ row, (outline a width).2 = some row → row < maxOffset + height →
      ∃ line other, (outline a width).1[row]? = some line ∧
        (draw a name width (height + 4))[row - scrollOffset row height + 2]? =
          some (lineRow (leftWidth a width) line ++ other)) ∧
    ∀ row, (code a).2 = some row → row < maxOffset + height →
      ∃ line other, (code a).1[row]? = some line ∧
        (draw a name width (height + 4))[row - scrollOffset row height + 2]? =
          some (other ++ lineRow (width - leftWidth a width) line) := by
  -- the other pane has a row beside every line, whatever it shows there
  have hbeside {row : Nat} (hlt : row < maxOffset + height) :
      row - scrollOffset row height + 1 < height + 2 := by
    have hshown := (lt_scrollOffset_add_iff hheight).mpr hlt
    omega
  refine ⟨?_, ?_⟩
  · intro row hrow hlt
    obtain ⟨line, hline, hshown⟩ := exists_visible_focus a width (by simp) hheight hrow hlt
    obtain ⟨other, hother⟩ := exists_getElem?_pane _ _ (code a) (hbeside hlt)
    exact ⟨line, other, hline, getElem?_draw name hwidth (getElem?_pane _ _ hshown) hother⟩
  · intro row hrow hlt
    obtain ⟨line, hline, hshown⟩ := exists_visible_focus a width (by simp) hheight hrow hlt
    obtain ⟨other, hother⟩ := exists_getElem?_pane _ _ (outline a width) (hbeside hlt)
    exact ⟨line, other, hline, getElem?_draw name hwidth hother (getElem?_pane _ _ hshown)⟩

end Screen

end SyntaxLens.Viewer

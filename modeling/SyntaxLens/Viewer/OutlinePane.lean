import SyntaxLens.Format.Outline
import SyntaxLens.Text.Pieces
import SyntaxLens.Viewer.Event
import SyntaxLens.Viewer.Model
import SyntaxLens.Viewer.Style

/-! # The outline pane

The rows of the outline, each with the step that leads to its node, an icon, its tag and its label.
The arrow keys walk over the rows, `Enter` and the space bar expand and collapse. -/

namespace SyntaxLens.Viewer.OutlinePane

/-- The text of a row. -/
def rowText (r : Row) : String :=
  String.ofList (List.replicate (2 * r.depth) ' ') ++
    (match r.segment with
      | some s => s.text ++ " "
      | none => "") ++
    Category.icon r.category ++ " " ++ r.tag ++
    if r.label.isEmpty then "" else " " ++ r.label

/-- The style of a row. -/
def rowStyle (focused : Option NodeId) (r : Row) : Style :=
  let collapsed := !r.expanded && r.hasChildren
  if focused = some r.id then
    { foreground := some (if collapsed then .gray else .white)
      background := some .blue
      bold := true }
  else if collapsed then { foreground := some .gray, dim := true }
  else if r.category.isNone then { foreground := some .red }
  else .plain

/-- The row of the focus. -/
def focusRow? (m : Model) : Option Nat := m.rows.findIdx? fun r => m.focused? == some r.id

/-- The text of a row on a pane with so many columns: what fits, without line ends. -/
def shownText (columns : Nat) (r : Row) : String :=
  String.ofList (Text.lines ((rowText r).toList.take columns)).flatten

/-- The lines of the pane, and the one of the focus. -/
def lines (columns : Nat) (m : Model) : List Line × Option Nat :=
  (m.rows.map fun r => [⟨shownText columns r, rowStyle m.focused? r⟩], focusRow? m)

/-- The node of the row behind the focus, or of the one before it. -/
def neighbour? (m : Model) (forward : Bool) : Option NodeId := do
  let i ← focusRow? m
  let j ← if forward then some (i + 1) else if i = 0 then none else some (i - 1)
  (m.rows[j]?).map Row.id

/-- What a key asks for. -/
def event (m : Model) (key : Key) : Event :=
  let asked := match key with
    | .down => (neighbour? m true).map Event.select
    | .up => (neighbour? m false).map Event.select
    | .enter | .char ' ' => m.focused?.map Event.toggle
    | _ => key.direction?.map Event.move
  asked.getD .none

end SyntaxLens.Viewer.OutlinePane

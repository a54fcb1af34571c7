import SyntaxLens.Fragment.Layout
import SyntaxLens.Rendering.Render
import SyntaxLens.Viewer.Event
import SyntaxLens.Viewer.Model
import SyntaxLens.Viewer.Style

/-! # The code pane

The text of the tree with a colour for each class of leaf. What is in focus has a background of its
own in place of the marks around it; the marks stay if there is nothing between them. -/

namespace SyntaxLens.Viewer.CodePane

/-- The style of a class of pieces. -/
def pieceStyle : PieceClass → Style
  | .leaf .keyword => { foreground := some .magenta, bold := true }
  | .leaf .operator => { foreground := some .yellow }
  | .leaf .punctuation | .leaf .bracket => { foreground := some .gray }
  | .leaf .literal => { foreground := some .green }
  | .leaf .identifier => { foreground := some .cyan }
  | .leaf .unknown => { foreground := some .red, italic := true }
  | _ => .plain

def focusStyle : Style := { background := some .blue, bold := true }

/-- The spans of a line, and whether the focus goes on behind it; `inFocus` says whether the line
begins in focus. -/
def spans (inFocus : Bool) : List Piece → Line × Bool
  | [] => ([], inFocus)
  | ⟨.focusOpen, _⟩ :: ⟨.focusClose, _⟩ :: rest =>
    let (line, after) := spans inFocus rest
    (⟨"»«", focusStyle⟩ :: line, after)
  | ⟨.focusOpen, _⟩ :: rest => spans true rest
  | ⟨.focusClose, _⟩ :: rest => spans false rest
  | ⟨.indent, text⟩ :: rest =>
    let (line, after) := spans inFocus rest
    (.raw text :: line, after)
  | ⟨kind, text⟩ :: rest =>
    let style := pieceStyle kind
    let (line, after) := spans inFocus rest
    (⟨text, if inFocus then style.patch focusStyle else style⟩ :: line, after)

/-- The spans of all lines, one after the other. -/
def spansOfAll (inFocus : Bool) : List (List Piece) → List Line
  | [] => []
  | pieces :: rest =>
    let (line, after) := spans inFocus pieces
    line :: spansOfAll after rest

/-- The line of a layout on which the focus begins. -/
def focusRow? (lines : List (List Piece)) : Option Nat :=
  lines.findIdx? fun line => line.any fun p => p.kind == .focusOpen

/-- The pieces of the tree, with the focus marked. -/
def layout (indent : String) (m : Model) : List (List Piece) :=
  match m.tree.renderRoot (some m.path) with
  | some f => f.layout indent
  | none => []

/-- The lines of the pane, and the one on which the focus begins. -/
def lines (indent : String) (m : Model) : List Line × Option Nat :=
  let pieces := layout indent m
  (spansOfAll false pieces, focusRow? pieces)

/-- What a key asks for. -/
def event (key : Key) : Event :=
  match key with
  | .down => .move .next
  | .up => .move .prev
  | _ => (key.direction?.map Event.move).getD .none

end SyntaxLens.Viewer.CodePane

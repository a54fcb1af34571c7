import SyntaxLens.Focus.Direction
import SyntaxLens.Tree.Basic

/-! # Keys and events

The keys that the viewer knows, and what a pane asks for when one is pressed. -/

namespace SyntaxLens.Viewer

inductive Key where
  | char (c : Char)
  | left | right | up | down | enter | tab | escape | home
deriving DecidableEq, Repr

/-- A key with or without the control key. -/
structure KeyPress where
  key : Key
  control : Bool
deriving DecidableEq, Repr

/-- The move that a key stands for in every pane. -/
def Key.direction? : Key → Option Direction
  | .left | .char 'h' => some .up
  | .right | .char 'l' => some .down
  | .char 'j' => some .next
  | .char 'k' => some .prev
  | _ => none

/-- What a pane asks for. -/
inductive Event where
  /-- Move the focus. -/
  | move (d : Direction)
  /-- Put the focus on a node of the outline. -/
  | select (id : NodeId)
  /-- Expand or collapse a row. -/
  | toggle (id : NodeId)
  | none
deriving DecidableEq, Repr

/-- The first line that a pane shows, so that a line is on it: the first of all as long as that
shows the line, and otherwise one that puts it in the middle. -/
def scrollOffset (line height : Nat) : Nat :=
  if line < height then 0 else min (line - height / 2) (Nat.pow 2 16 - 1)

end SyntaxLens.Viewer

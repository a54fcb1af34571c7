import SyntaxLens.Focus.Move

/-! # The focus

A tree together with the path that is in focus. A new tree puts the focus back on its root. -/

namespace SyntaxLens

/-- A tree and the path into it that is in focus. -/
structure Focus where
  tree : Tree
  path : Path

namespace Focus

/-- The focus on the root of a tree. -/
def ofTree (t : Tree) : Focus := ⟨t, []⟩

variable (f : Focus)

/-- The node in focus. -/
def focused? : Option NodeId := f.tree.resolve f.path

/-- The focus after a move, and whether the path is another one. -/
def move (d : Direction) : Focus × Bool :=
  let path := f.tree.move f.path d
  ({ f with path := path }, path != f.path)

/-- Puts the focus on a path if it resolves, and says whether it does. -/
def setPath (p : Path) : Focus × Bool :=
  if (f.tree.resolve p).isSome then ({ f with path := p }, true) else (f, false)

/-- Puts the focus on a node if the root reaches it, and says whether it does. -/
def setNode (id : NodeId) : Focus × Bool :=
  match f.tree.pathOf? id with
  | some p => f.setPath p
  | none => (f, false)

end Focus

end SyntaxLens

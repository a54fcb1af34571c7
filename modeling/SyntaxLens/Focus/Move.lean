import SyntaxLens.Focus.Direction
import SyntaxLens.Tree.Basic

/-! # Moving the focus

A move leads from one path to another of the same tree. A move without a target, and a move from a
path that does not resolve, leave the path as it is.

* Up drops the last segment, down goes into the primary role of the node.
* Next and prev go along the innermost list that the path passes, over its holes, and drop what the
  path has below that list. -/

namespace SyntaxLens.Tree

variable (t : Tree)

/-- The segment to go down by: to the primary child, or to the first one of a primary list. Where
the primary child is absent the first present child takes its place; an empty primary list ends
the way down. -/
def descent? (id : NodeId) : Option Segment := do
  let n ← t.node? id
  let role ← n.form.primary
  match ← n.field? role with
  | .one (some _) => some (.single role)
  | .one none => (n.segments.head?).map Prod.fst
  | .many slots => ((Field.many slots).nextPresent? 0).map (.element role)

/-- Splits a path at its last segment with an index: what stands before it, the segment without its
index, and the index. -/
def lastIndexed? : Path → Option (Path × String × Nat)
  | [] => none
  | s :: rest =>
    match lastIndexed? rest with
    | some (before, name, i) => some (s :: before, name, i)
    | none => s.index.map fun i => ([], s.field, i)

/-- The path to the nearest filled slot of the innermost list, in one direction. -/
def sidestep? (p : Path) (forward : Bool) : Option Path := do
  let (before, name, i) ← lastIndexed? p
  let owner ← t.resolve before
  let n ← t.node? owner
  let f ← n.fieldNamed? name
  let target ← if forward then f.nextPresent? (i + 1)
    else if i = 0 then none else f.prevPresent? (i - 1)
  return before ++ [⟨name, some target⟩]

/-- The path that a move leads to. -/
def move (p : Path) (d : Direction) : Path :=
  match t.resolve p with
  | none => p
  | some id =>
    match d with
    | .up => p.parent
    | .down => ((t.descent? id).map fun s => p ++ [s]).getD p
    | .next => (t.sidestep? p true).getD p
    | .prev => (t.sidestep? p false).getD p

end SyntaxLens.Tree

import SyntaxLens.Focus.State
import SyntaxLens.Tree.Label

/-! # What the viewer shows

A tree with its focus, and the nodes whose rows are expanded in the outline.

* `Model.rows` is the outline: one row for each node that can be seen, which is one below expanded
  rows only. The row of the root is always expanded. The descent shows a node only where it is met
  first.
* Every change of the focus expands the rows above it, so that its own row can be seen.
* A new tree puts everything back: the focus on the root, and all rows expanded. -/

namespace SyntaxLens.Viewer

/-- A row of the outline. -/
structure Row where
  id : NodeId
  depth : Nat
  /-- The step that leads to the node; the root has none. -/
  segment : Option Segment
  tag : String
  category : Option Category
  label : String
  expanded : Bool
  hasChildren : Bool
deriving DecidableEq, Repr

/-- A tree with its focus and the nodes that are expanded. The order of these does not matter, nor
does it whether they are in the tree. -/
structure Model where
  focus : Focus
  expanded : List NodeId

namespace Model

/-- The model of a tree: the focus on its root, and every node expanded that the root reaches. -/
def ofTree (t : Tree) : Model := ⟨.ofTree t, t.walk.map Prod.fst⟩

variable (m : Model)

def tree : Tree := m.focus.tree

def path : Path := m.focus.path

def focused? : Option NodeId := m.focus.focused?

/-! ### Rows that are expanded -/

def isExpanded (id : NodeId) : Bool := id == m.tree.root || m.expanded.contains id

def expand (ids : List NodeId) : Model :=
  { m with expanded := ids.filter (!m.expanded.contains ·) ++ m.expanded }

def collapse (id : NodeId) : Model := { m with expanded := m.expanded.filter (· != id) }

def toggle (id : NodeId) : Model :=
  if m.expanded.contains id then m.collapse id else m.expand [id]

/-- The parents above a node, the root first; at most `steps` of them, in front of `below`. -/
def ancestorsFrom : (steps : Nat) → NodeId → (below : List NodeId) → List NodeId
  | 0, _, below => below
  | steps + 1, id, below =>
    match m.tree.parent? id with
    | some parent => ancestorsFrom steps parent (parent :: below)
    | none => below

/-- The nodes above a node, the root first. A chain of parents is shorter than the arena. -/
def ancestors (id : NodeId) : List NodeId := m.ancestorsFrom m.tree.size id []

/-- Expands the rows above the focus. -/
def reveal : Model :=
  match m.focused? with
  | some id => m.expand (m.ancestors id)
  | none => m

/-! ### Changes of the focus -/

/-- Moves the focus, and says whether it is another one now. -/
def move (d : Direction) : Model × Bool :=
  let (focus, moved) := m.focus.move d
  if moved then (({ m with focus := focus } : Model).reveal, true) else (m, false)

/-- Puts the focus on a node, and says whether the root reaches it. -/
def focusOn (id : NodeId) : Model × Bool :=
  let (focus, accepted) := m.focus.setNode id
  if accepted then (({ m with focus := focus } : Model).reveal, true) else (m, false)

/-! ### Rows -/

/-- The row of a node. -/
def row (depth : Nat) (segment : Option Segment) (id : NodeId) (n : Node) : Row where
  id := id
  depth := depth
  segment := segment
  tag := n.tag
  category := n.kind?.map Kind.category
  label := m.tree.label id
  expanded := m.isExpanded id
  hasChildren := !(m.tree.segments id).isEmpty

/-- The rows of children and of what is below them, and the nodes that have a row then; `below`
gives the rows of one child. -/
def rowsOfAll (below : Segment → NodeId → List NodeId → List Row × List NodeId) :
    List (Segment × NodeId) → List NodeId → List Row × List NodeId
  | [], seen => ([], seen)
  | (s, id) :: rest, seen =>
    let first := below s id seen
    let others := rowsOfAll below rest first.2
    (first.1 ++ others.1, others.2)

/-- The rows of a node and of what can be seen below it, to at most `levels` levels. -/
def rowsFrom : (levels : Nat) → (depth : Nat) → Option Segment → NodeId → List NodeId →
    List Row × List NodeId
  | 0, _, _, _, seen => ([], seen)
  | levels + 1, depth, segment, id, seen =>
    match m.tree.node? id with
    | none => ([], seen)
    | some n =>
      if seen.contains id then ([], seen)
      else
        let row := m.row depth segment id n
        let below := if row.expanded then
            rowsOfAll (fun s => rowsFrom levels (depth + 1) (some s)) (m.tree.segments id)
              (id :: seen)
          else ([], id :: seen)
        (row :: below.1, below.2)

/-- The outline. A way down passes no node twice, so the size of the arena bounds the levels. -/
def rows : List Row := (m.rowsFrom m.tree.size 0 none m.tree.root []).1

end Model

end SyntaxLens.Viewer

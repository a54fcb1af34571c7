import SyntaxLens.Tree.Label

/-! # Outlines

A tree as an outline, one node a line: connectors that show the structure, the segment that leads to
the node, an icon for its category, its tag and a label of limited width. The line of the node in
focus is marked.

The outline descends from parent to child and shows a node only where it is met first. A child that
is skipped still counts as one of its siblings when connectors are chosen. -/

namespace SyntaxLens

/-- The icon of a category; nodes of unknown kind have one of their own. -/
def Category.icon : Option Category → String
  | some .root => "⧉"
  | some .statement => "¶"
  | some .declaration => "≔"
  | some .expression => "◇"
  | some .literal => "◦"
  | some .pattern => "⊡"
  | some .classMember => "◆"
  | some .moduleClause => "⇄"
  | none => "∅"

namespace Outline

/-- A text cut after `width` characters, with a mark where it was cut. -/
def truncate (width : Nat) (s : String) : String :=
  let cs := s.toList
  if width < cs.length then String.ofList (cs.take width ++ ['…']) else s

/-- A line of an outline: what comes before the description of a node, and the node. -/
structure Entry where
  lead : String
  id : NodeId
deriving DecidableEq, Repr

/-- The description of a node. -/
def describe (t : Tree) (focused : Option NodeId) (width : Nat) (id : NodeId) : String :=
  match t.node? id with
  | none => ""
  | some n =>
    let icon := Category.icon (n.kind?.map Kind.category)
    let label := truncate width (t.label id)
    let text := icon ++ " " ++ n.tag ++ if label.isEmpty then "" else " " ++ label
    if focused = some id then "»" ++ text ++ "«" else text

/-- The lines of children and of what is below them, and the nodes that are shown then; `below`
gives the lines below one node. -/
def siblings (t : Tree)
    (below : NodeId → String → List NodeId → List Entry × List NodeId) (lead : String) :
    List (Segment × NodeId) → List NodeId → List Entry × List NodeId
  | [], seen => ([], seen)
  | (s, id) :: rest, seen =>
    if seen.contains id || !t.has id then siblings t below lead rest seen
    else
      let connector := if rest.isEmpty then "└─ " else "├─ "
      let inner := below id (lead ++ if rest.isEmpty then "   " else "│  ") (id :: seen)
      let others := siblings t below lead rest inner.2
      (⟨lead ++ connector ++ s.text ++ " ", id⟩ :: inner.1 ++ others.1, others.2)

/-- The lines below a node, to at most `depth` levels. -/
def below (t : Tree) : (depth : Nat) → NodeId → String → List NodeId → List Entry × List NodeId
  | 0, _, _, seen => ([], seen)
  | depth + 1, id, lead, seen => siblings t (below t depth) lead (t.segments id) seen

/-- The lines of a tree. A way down passes no node twice, so the size of the arena bounds the
depth. -/
def entries (t : Tree) : List Entry :=
  if t.has t.root then ⟨"", t.root⟩ :: (below t t.size t.root "" [t.root]).1 else []

end Outline

/-- The outline of a tree with a focus. Labels are cut after `width` characters. -/
def Tree.outline (t : Tree) (focus : Path) (width : Nat) : String :=
  String.join ((Outline.entries t).map fun e =>
    e.lead ++ Outline.describe t (t.resolve focus) width e.id ++ "\n")

end SyntaxLens

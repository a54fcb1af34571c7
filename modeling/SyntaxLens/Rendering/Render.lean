import SyntaxLens.Rendering.Rules

/-! # Rendering

Rendering projects a tree onto a fragment. Every node gives a composite marked with it, its path and
whether that path is the focus; a node of unknown kind gives a placeholder. Nothing in the tree is
changed.

* `planFor?` hands a node from table to table until one has a rule; two hand-overs are enough.
* `renderAt` renders a node and what is below it through a table. The depth is bounded by the size
  of the arena, which is enough wherever no node is below itself.
* `Tree.render` labels what it renders with paths from the root, or from the node itself if the root
  does not reach it; in the second case nothing is in focus.
* `Tree.notices` are the reports on the hand-overs, in display order. -/

namespace SyntaxLens

namespace Rendering

/-- The plan for a node from the first table that has a rule for it, after at most `hops`
hand-overs. -/
def planWithin? (t : Tree) (n : Node) : (hops : Nat) → Table → Option Plan
  | 0, table => rule? t n table n.form
  | hops + 1, table =>
    match rule? t n table n.form with
    | some plan => some plan
    | none => planWithin? t n hops (table.next n.form)

/-- The plan for a node, beginning with a table. -/
def planFor? (t : Tree) (n : Node) (table : Table) : Option Plan := planWithin? t n 2 table

mutual

/-- What a part of the node at `path` shows. -/
def display (child : Table → Path → NodeId → Option Fragment) (path : Path) : Part → List Fragment
  | .leaf l => [.leaf l]
  | .child s id table continued =>
    match child table (path ++ [s]) id with
    | some f => [if continued then f.continued else f]
    | none => []
  | .group flow parts => [.group flow (displayAll child path parts)]

def displayAll (child : Table → Path → NodeId → Option Fragment) (path : Path) :
    List Part → List Fragment
  | [] => []
  | p :: rest => display child path p ++ displayAll child path rest

end

variable (t : Tree) (focus : Option Path)

/-- The node at the end of `path`, rendered through a table to at most `depth` levels. -/
def renderAt : (depth : Nat) → Table → Path → NodeId → Option Fragment
  | 0, _, _, _ => none
  | depth + 1, table, path, id => do
    let n ← t.node? id
    let plan ← planFor? t n table
    return .composite plan.flow (some ⟨id, n.tag, path, focus == some path⟩)
      (displayAll (renderAt depth) path plan.parts)

/-! ### Notices -/

/-- The reports on the hand-overs of a node. -/
def handOvers (n : Node) : (hops : Nat) → Table → List Notice
  | 0, _ => []
  | hops + 1, table =>
    match rule? t n table n.form with
    | some _ => []
    | none =>
      (match table with
        | .family f => [.outsider f n.tag]
        | _ => []) ++ handOvers n hops (table.next n.form)

mutual

def noticesOf (child : Table → NodeId → List Notice) : Part → List Notice
  | .leaf _ => []
  | .child _ id table _ => child table id
  | .group _ parts => noticesOfAll child parts

def noticesOfAll (child : Table → NodeId → List Notice) : List Part → List Notice
  | [] => []
  | p :: rest => noticesOf child p ++ noticesOfAll child rest

end

/-- The reports on rendering a node through a table. -/
def noticesAt : (depth : Nat) → Table → NodeId → List Notice
  | 0, _, _ => []
  | depth + 1, table, id =>
    match t.node? id with
    | none => []
    | some n =>
      handOvers t n 2 table ++
        match planFor? t n table with
        | some plan => noticesOfAll (noticesAt depth) plan.parts
        | none => []

end Rendering

namespace Tree

variable (t : Tree)

/-- The fragment of a node and everything below it; none outside the arena. -/
def render (focus : Option Path) (id : NodeId) : Option Fragment :=
  match t.pathOf? id with
  | some base => Rendering.renderAt t focus t.size .main base id
  | none => Rendering.renderAt t none t.size .main [] id

/-- The fragment of the whole tree. -/
def renderRoot (focus : Option Path) : Option Fragment := t.render focus t.root

/-- The reports on rendering a node. -/
def renderNotices (id : NodeId) : List Notice := Rendering.noticesAt t t.size .main id

end Tree

end SyntaxLens

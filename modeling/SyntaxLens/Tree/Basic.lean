import SyntaxLens.Tree.Node

/-! # Syntax trees

A tree is an arena of nodes, the place of its root, and for every node below the root the parent
under which it was found first. Nothing is asked of the arena: children may be shared, may lie
outside the arena and may lead back up.

* `Tree.walk` lists the nodes that the root reaches, in pre-order with their depths. It keeps a
  stack of what is still to visit and visits nothing twice.
* `Tree.parent?` is filled in by a traversal of the same order, which gives a node its parent when
  the node is put on the stack.
* `Tree.resolve` follows a path from the root; `Tree.pathOf?` builds the path of a node from its
  chain of parents. -/

namespace SyntaxLens

/-- The present children of the node at a place, and none outside the arena. -/
def childrenAt (nodes : Array Node) (id : NodeId) : List NodeId :=
  match nodes[id]? with
  | some n => n.children
  | none => []

/-- How often a node can be put on the stack of a traversal that visits no node twice: once as the
root, and once for every child slot that is filled. -/
def visits (nodes : Array Node) : Nat :=
  nodes.toList.foldr (fun n filled => n.children.length + filled) 1

namespace Tree

/-- Notes `parent` as the parent of a child that has none yet. -/
def adopt (parent : NodeId) (parents : List (NodeId × NodeId)) (child : NodeId) :
    List (NodeId × NodeId) :=
  match parents.lookup child with
  | some _ => parents
  | none => (child, parent) :: parents

/-- Goes through the arena from the nodes on the stack and notes the parent of every node that is
put there. -/
def linkFrom (nodes : Array Node) : (steps : Nat) → (stack seen : List NodeId) →
    (parents : List (NodeId × NodeId)) → List (NodeId × NodeId)
  | 0, _, _, parents => parents
  | _, [], _, parents => parents
  | steps + 1, id :: stack, seen, parents =>
    if seen.contains id || nodes.size ≤ id then linkFrom nodes steps stack seen parents
    else
      let seen := id :: seen
      let fresh := (childrenAt nodes id).filter fun c => c < nodes.size && !seen.contains c
      linkFrom nodes steps (fresh ++ stack) seen (fresh.foldl (adopt id) parents)

/-- The parents of the nodes that the root reaches. -/
def linkParents (nodes : Array Node) (root : NodeId) : List (NodeId × NodeId) :=
  linkFrom nodes (visits nodes) [root] [] []

end Tree

/-- A syntax tree. -/
structure Tree where
  nodes : Array Node
  root : NodeId
  parents : List (NodeId × NodeId)
  parents_eq : parents = Tree.linkParents nodes root

namespace Tree

/-- The tree over an arena, with the parents linked. -/
def ofNodes (nodes : Array Node) (root : NodeId) : Tree :=
  ⟨nodes, root, linkParents nodes root, rfl⟩

/-- A tree that holds a single empty program. -/
def empty : Tree := ofNodes #[.ofEntries (.known .program "script") []] 0

instance : Inhabited Tree := ⟨empty⟩

variable (t : Tree)

def size : Nat := t.nodes.size

def node? (id : NodeId) : Option Node := t.nodes[id]?

/-- Whether a place lies in the arena. -/
def has (id : NodeId) : Bool := id < t.nodes.size

def parent? (id : NodeId) : Option NodeId := t.parents.lookup id

/-- The present children of a node, in field order. -/
def children (id : NodeId) : List NodeId := childrenAt t.nodes id

/-- The present children of a node, each with the segment that leads to it. -/
def segments (id : NodeId) : List (Segment × NodeId) :=
  match t.node? id with
  | some n => n.segments
  | none => []

/-! ### Paths -/

/-- One step from a node into the arena. -/
def step? (id : NodeId) (s : Segment) : Option NodeId := do
  let n ← t.node? id
  let f ← n.fieldNamed? s.field
  let child ← f.at? s.index
  if t.has child then some child else none

/-- The steps of a path, one after the other. -/
def follow? (id : NodeId) : Path → Option NodeId
  | [] => some id
  | s :: rest =>
    match t.step? id s with
    | some child => follow? child rest
    | none => none

/-- The node at the end of a path from the root. -/
def resolve (p : Path) : Option NodeId :=
  if t.has t.root then t.follow? t.root p else none

/-- The path from the root down to a node and on along `below`, by at most `steps` parents. -/
def climb : (steps : Nat) → NodeId → (below : Path) → Option Path
  | 0, id, below => if id = t.root then some below else none
  | steps + 1, id, below =>
    if id = t.root then some below
    else do
      let parent ← t.parent? id
      let n ← t.node? parent
      let s ← n.segmentTo? id
      climb steps parent (s :: below)

/-- The path of a node that the root reaches. A chain of parents has no more links than the arena
has nodes. -/
def pathOf? (id : NodeId) : Option Path :=
  if t.has id then t.climb t.size id [] else none

/-! ### Traversal -/

/-- Visits the nodes on the stack and everything below them that has not been seen. -/
def walkFrom : (steps : Nat) → (stack : List (NodeId × Nat)) → (seen : List NodeId) →
    List (NodeId × Nat)
  | 0, _, _ => []
  | _, [], _ => []
  | steps + 1, (id, depth) :: stack, seen =>
    if seen.contains id || !t.has id then walkFrom steps stack seen
    else
      (id, depth) ::
        walkFrom steps ((t.children id).map (·, depth + 1) ++ stack) (id :: seen)

/-- The nodes that the root reaches, in pre-order, each with its depth. -/
def walk : List (NodeId × Nat) := t.walkFrom (visits t.nodes) [(t.root, 0)] []

end Tree

end SyntaxLens

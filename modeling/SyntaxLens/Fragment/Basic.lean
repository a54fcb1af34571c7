import SyntaxLens.Focus.Path
import SyntaxLens.Tree.Node

/-! # Fragments

A rendered tree is a fragment: leaves of text, and composites that group fragments. A composite
that stands for a node of the tree is marked with that node; the others only group parts of one,
such as a list or a body.

* `Fragment.leaves` and `Fragment.nodes` are the leaves and the marks in display order.
* `Fragment.focused?` is the first composite that is marked as focused. -/

namespace SyntaxLens

/-- What kind of text a leaf is. The first four are tokens of the language, the others text. -/
inductive LeafClass where
  | keyword | operator | punctuation | bracket
  | plain | identifier | literal | unknown
deriving DecidableEq, Repr

namespace LeafClass

def isToken : LeafClass → Bool
  | .keyword | .operator | .punctuation | .bracket => true
  | .plain | .identifier | .literal | .unknown => false

def name : LeafClass → String
  | .keyword => "keyword"
  | .operator => "operator"
  | .punctuation => "punctuation"
  | .bracket => "bracket"
  | .plain => "plain"
  | .identifier => "identifier"
  | .literal => "literal"
  | .unknown => "unknown"

end LeafClass

/-- A text and what kind of text it is. -/
structure Leaf where
  kind : LeafClass
  text : String
deriving DecidableEq, Repr

/-- Whether a composite stays on the line or stands on lines of its own. -/
inductive Flow where
  | inline | block
deriving DecidableEq, Repr

def Flow.name : Flow → String
  | .inline => "inline"
  | .block => "block"

/-- The node that a composite stands for, its path, and whether it is in focus. -/
structure Mark where
  id : NodeId
  tag : String
  path : Path
  focused : Bool
deriving DecidableEq, Repr

inductive Fragment where
  | leaf (leaf : Leaf)
  | composite (flow : Flow) (mark : Option Mark) (children : List Fragment)
deriving Repr

instance : Inhabited Fragment := ⟨.composite .inline none []⟩

namespace Fragment

/-- A composite that stands for no node. -/
def group (flow : Flow) (children : List Fragment) : Fragment := .composite flow none children

/-- The empty slot of a list. -/
def hole : Fragment := group .inline []

def isHole : Fragment → Bool
  | .composite .inline none [] => true
  | _ => false

def mark? : Fragment → Option Mark
  | .composite _ mark _ => mark
  | .leaf _ => none

/-- The text of a leaf; that of a composite is empty. -/
def text : Fragment → String
  | .leaf l => l.text
  | .composite .. => ""

mutual

/-- The leaves in display order. -/
def leaves : Fragment → List Leaf
  | .leaf l => [l]
  | .composite _ _ children => leavesAll children

def leavesAll : List Fragment → List Leaf
  | [] => []
  | f :: rest => leaves f ++ leavesAll rest

end

mutual

/-- The marks of the nodes, a node before the nodes below it. -/
def nodes : Fragment → List Mark
  | .leaf _ => []
  | .composite _ mark children => mark.toList ++ nodesAll children

def nodesAll : List Fragment → List Mark
  | [] => []
  | f :: rest => nodes f ++ nodesAll rest

end

/-- The mark of the first composite in focus. -/
def focused? (f : Fragment) : Option Mark := f.nodes.find? Mark.focused

/-- Whether this is the placeholder for a node of unknown kind. -/
def isUnknown : Fragment → Bool
  | .composite _ _ [.leaf l] => l.kind == .unknown
  | _ => false

/-- The fragment kept on the line. -/
def continued : Fragment → Fragment
  | .composite _ mark children => .composite .inline mark children
  | .leaf l => .leaf l

end Fragment

end SyntaxLens

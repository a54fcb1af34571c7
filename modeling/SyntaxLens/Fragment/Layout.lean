import SyntaxLens.Fragment.Basic

/-! # Layout

A fragment is laid out as lines of pieces: its leaves, the spaces between them, the indents and the
marks around the fragment in focus.

* A block composite begins on a fresh line and ends its line. An anonymous one indents what is in it
  by one level; with nothing in it, it leaves no trace, nor does a hole.
* Two leaves on a line have a space between them unless one of them hugs the other (`hugs`) or they
  are glued: an operator to its only operand, and the parts of a regular expression.
* Empty leaves are skipped. A line ends without spaces and is kept only if it shows something.
* The mark that opens the focus comes before the first leaf in focus, the one that closes it after
  the last; if nothing in focus is shown both stand where it would be. -/

namespace SyntaxLens

/-- What a piece of a line is. -/
inductive PieceClass where
  | indent | space | focusOpen | focusClose
  | leaf (kind : LeafClass)
deriving DecidableEq, Repr

def PieceClass.name : PieceClass → String
  | .indent => "Indent"
  | .space => "Space"
  | .focusOpen => "FocusOpen"
  | .focusClose => "FocusClose"
  | .leaf .keyword => "Keyword"
  | .leaf .operator => "Operator"
  | .leaf .punctuation => "Punctuation"
  | .leaf .bracket => "Bracket"
  | .leaf .plain => "Plain"
  | .leaf .identifier => "Identifier"
  | .leaf .literal => "Literal"
  | .leaf .unknown => "Unknown"

/-- A piece of a line. The texts of its pieces make up a line. -/
structure Piece where
  kind : PieceClass
  text : String
deriving DecidableEq, Repr

namespace Piece

def space : Piece := ⟨.space, " "⟩

def focusOpen : Piece := ⟨.focusOpen, "»"⟩

def focusClose : Piece := ⟨.focusClose, "«"⟩

def ofLeaf (l : Leaf) : Piece := ⟨.leaf l.kind, l.text⟩

/-- Whether the piece only keeps others apart. -/
def isGap (p : Piece) : Bool := p.kind == .indent || p.kind == .space

/-- Whether the piece shows something. -/
def isContent (p : Piece) : Bool := !p.isGap && !Text.isAllBlank p.text.toList

end Piece

namespace Layout

/-- Where the layout stands: the lines that are complete, the line begun, the last leaf on it,
whether the next leaf is glued to that, and whether the focus waits for its first leaf. -/
structure State where
  lines : List (List Piece)
  line : List Piece
  prev : Option Leaf
  glue : Bool
  pending : Bool
deriving DecidableEq, Repr

def State.start : State := ⟨[], [], none, false, false⟩

/-- What encloses a fragment: the text of one indent, the number of indents, and the tag of the
innermost node. -/
structure Context where
  unit : String
  depth : Nat
  owner : Option String
deriving DecidableEq, Repr

/-! ### Spacing -/

/-- Texts with no space before them. -/
def hugsLeft : List String := [",", ";", ")", "]", ".", "?.", "::"]

/-- Texts with no space after them. -/
def hugsRight : List String := ["(", "[", ".", "?.", "::", "...", "@"]

/-- Whether `next` follows `prev` without a space. A colon belongs to what is before it except in a
conditional; an opening bracket belongs to a callee. -/
def hugs (owner : Option String) (prev : Leaf) (next : String) : Bool :=
  hugsLeft.contains next ||
  (next == ":" && owner != some "ConditionalExpression") ||
  hugsRight.contains prev.text ||
  ((next == "(" || next == "[") &&
    (!prev.kind.isToken || [")", "]", "this", "super"].contains prev.text))

namespace State

variable (s : State)

/-- Whether there is a space before `next`. -/
def needsSpace (owner : Option String) (next : String) : Bool :=
  match s.prev with
  | none => false
  | some prev => !s.glue && !hugs owner prev next

/-- Begins the line, or puts a space before `next`. -/
def separate (c : Context) (next : String) : State :=
  if s.line.isEmpty then { s with line := List.replicate c.depth ⟨.indent, c.unit⟩ }
  else if s.needsSpace c.owner next then { s with line := s.line ++ [.space] }
  else s

/-- The mark that opens the focus, if it is due. -/
def openFocus : State :=
  if s.pending then { s with line := s.line ++ [.focusOpen], pending := false } else s

/-- Puts a leaf on the line. -/
def put (c : Context) (l : Leaf) : State :=
  if l.text.isEmpty then s
  else
    let s := (s.separate c l.text).openFocus
    { s with line := s.line ++ [.ofLeaf l], prev := some l, glue := false }

/-- The mark that closes the focus, on the last line that shows something. -/
def closeFocus (c : Context) : State :=
  if s.pending then
    let s := ({ s with pending := false } : State).separate c "»«"
    { s with line := s.line ++ [.focusOpen, .focusClose] }
  else if s.line.isEmpty && !s.lines.isEmpty then
    { s with lines := s.lines.dropLast ++ (s.lines.getLast?.map (· ++ [.focusClose])).toList }
  else { s with line := s.line ++ [.focusClose] }

/-- Ends the line. -/
def flush : State :=
  let line := (s.line.reverse.dropWhile Piece.isGap).reverse
  { s with
    lines := if line.any Piece.isContent then s.lines ++ [line] else s.lines
    line := []
    prev := none
    glue := false }

def flushIf (block : Bool) : State := if block then s.flush else s

/-- Glues the next leaf to the last one. -/
def glueIf (glued : Bool) : State := if glued then { s with glue := true } else s

end State

/-! ### Printing -/

/-- How the children of a composite hold together: operators to their operand, or all of them. -/
structure Cohesion where
  tight : Bool
  solid : Bool

/-- The composites whose children hold together. -/
def Cohesion.of (tag : Option String) : Cohesion where
  tight := tag == some "UnaryExpression" || tag == some "UpdateExpression"
  solid := tag == some "RegExpLiteral"

/-- Whether a child is an operator that holds to its operand. -/
def Cohesion.attaches (k : Cohesion) : Fragment → Bool
  | .leaf l => k.tight && l.kind == .operator
  | .composite .. => false

mutual

/-- Prints a fragment. -/
def print (c : Context) : Fragment → State → State
  | .leaf l, s => s.put c l
  | .composite flow mark children, s =>
    if mark.isNone && children.isEmpty then s
    else
      let block := flow == .block
      let focused := match mark with
        | some m => m.focused
        | none => false
      let tag := mark.map Mark.tag
      let inner : Context := {
        unit := c.unit
        depth := if block && mark.isNone then c.depth + 1 else c.depth
        owner := tag.or c.owner }
      let s := s.flushIf block
      let s := if focused then { s with pending := true } else s
      let s := printAll inner (Cohesion.of tag) true children s
      let s := if focused then s.closeFocus c else s
      s.flushIf block

/-- Prints the children of a composite; `first` says whether the first of them is still to come. -/
def printAll (c : Context) (k : Cohesion) (first : Bool) : List Fragment → State → State
  | [], s => s
  | f :: rest, s =>
    let s := s.glueIf ((k.attaches f || k.solid) && !first)
    let s := print c f s
    let s := s.glueIf (k.attaches f && first)
    printAll c k false rest s

end

end Layout

namespace Fragment

/-- The lines of a fragment, one level of indent being `unit`. -/
def layout (unit : String) (f : Fragment) : List (List Piece) :=
  (Layout.print ⟨unit, 0, none⟩ f .start).flush.lines

/-- The text of a fragment, each line with its end. -/
def toText (unit : String) (f : Fragment) : String :=
  String.join ((f.layout unit).map fun line => String.join (line.map Piece.text) ++ "\n")

end Fragment

end SyntaxLens

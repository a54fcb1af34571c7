/-! # Styles

How a piece of text looks in the terminal. -/

namespace SyntaxLens.Viewer

inductive Color where
  | black | red | green | yellow | blue | magenta | cyan | gray | white
deriving DecidableEq, Repr

def Color.name : Color → String
  | .black => "Black"
  | .red => "Red"
  | .green => "Green"
  | .yellow => "Yellow"
  | .blue => "Blue"
  | .magenta => "Magenta"
  | .cyan => "Cyan"
  | .gray => "Gray"
  | .white => "White"

/-- A style. A colour that is not given is that of what is below. -/
structure Style where
  foreground : Option Color := none
  background : Option Color := none
  bold : Bool := false
  dim : Bool := false
  italic : Bool := false
deriving DecidableEq, Repr

namespace Style

def plain : Style := {}

/-- The names of what is set apart from colours. -/
def modifiers (s : Style) : List String :=
  (if s.bold then ["BOLD"] else []) ++ (if s.dim then ["DIM"] else []) ++
    (if s.italic then ["ITALIC"] else [])

/-- The style with another one on top. -/
def patch (below top : Style) : Style where
  foreground := top.foreground.or below.foreground
  background := top.background.or below.background
  bold := below.bold || top.bold
  dim := below.dim || top.dim
  italic := below.italic || top.italic

end Style

/-- A piece of text in one style. -/
structure Span where
  text : String
  style : Style
deriving DecidableEq, Repr

def Span.raw (text : String) : Span := ⟨text, .plain⟩

/-- A line is made up of spans. -/
abbrev Line := List Span

end SyntaxLens.Viewer

import SyntaxLens.Text.Blank
import SyntaxLens.Viewer.App

/-! # The screen

What the viewer shows on a terminal of some size: a title, the two panes side by side, and the
status line. Below `minWidth` columns there is only a message.

* A screen is a list of rows of cells; every row has as many cells as there are columns, and a text
  that does not fit is cut.
* A pane has a frame with its name in the upper edge. Of its lines those are shown that fit, from
  the offset that keeps the line in focus on the pane. -/

namespace SyntaxLens.Viewer

/-- One place of the screen. -/
structure Cell where
  char : Char
  style : Style
deriving DecidableEq, Repr

abbrev ScreenRow := List Cell

namespace Screen

/-- Fewer columns are too few. -/
def minWidth : Nat := 50

def blank (style : Style) : Cell := ⟨' ', style⟩

/-- The cells of spans on top of a style. A newline takes no cell. -/
def cells (below : Style) (line : Line) : List Cell :=
  line.flatMap fun s =>
    (s.text.toList.filter (· != '\n')).map fun c => ⟨c, below.patch s.style⟩

/-- A row with the cells of spans, cut or filled up to a width. -/
def rowOf (width : Nat) (below : Style) (line : Line) : ScreenRow :=
  let shown := (cells below line).take width
  shown ++ List.replicate (width - shown.length) (blank below)

/-- A row without style. -/
def plainRow (text : List Char) : ScreenRow := text.map fun c => ⟨c, .plain⟩

/-! ### Panes -/

/-- A row of a frame: its ends and what is between them. A frame of one column has only its left
end, one of none has nothing. -/
def framed (width : Nat) (left right : Char) (inner : Nat → ScreenRow) : ScreenRow :=
  match width with
  | 0 => []
  | 1 => plainRow [left]
  | inside + 2 => plainRow [left] ++ inner inside ++ plainRow [right]

/-- The upper edge of a frame, with a name in it. -/
def upperEdge (width : Nat) (name : String) : ScreenRow :=
  framed width '┌' '┐' fun inside =>
    let shown := name.toList.take inside
    plainRow (shown ++ List.replicate (inside - shown.length) '─')

def lowerEdge (width : Nat) : ScreenRow :=
  framed width '└' '┘' fun inside => plainRow (List.replicate inside '─')

/-- The lines that a pane of some height shows. -/
def visible (height : Nat) (content : List Line × Option Nat) : List Line :=
  let offset := match content.2 with
    | some row => scrollOffset row height
    | none => 0
  (content.1.drop offset).take height

/-- The rows of a pane. A pane of one row has only its upper edge. -/
def pane (width height : Nat) (name : String) (content : List Line × Option Nat) :
    List ScreenRow :=
  match height with
  | 0 => []
  | 1 => [upperEdge width name]
  | inside + 2 =>
    let shown := visible inside content
    let lines := shown ++ List.replicate (inside - shown.length) []
    [upperEdge width name] ++
      lines.map (fun line => framed width '│' '│' fun columns => rowOf columns .plain line) ++
      [lowerEdge width]

/-- The name of a pane, with a mark if it is in use. -/
def paneName (name : String) (inUse : Bool) : String :=
  if inUse then name ++ " [FOCUSED]" else name

/-- The panes of the viewer side by side. The code has at least half of the width. -/
def panes (a : App) (width height : Nat) : List ScreenRow :=
  let left := min a.outlineWidth (width / 2)
  List.zipWith (· ++ ·)
    (pane left height (paneName "Outline" (a.pane == .outline))
      (OutlinePane.lines (left - 2) a.model))
    (pane (width - left) height (paneName "Code" (a.pane == .code))
      (CodePane.lines a.indent a.model))

/-! ### Bars -/

def titleStyle : Style :=
  { foreground := some .black, background := some .cyan, bold := true }

def statusStyle : Style := { foreground := some .white, background := some .black }

/-- The title bar, which shows one line. -/
def titleBar (name : String) (width : Nat) : ScreenRow :=
  let title := (Text.lines ("astedit:: " ++ name).toList).headD []
  rowOf width titleStyle [.raw (String.ofList title)]

/-- The path in focus, the tag of its node, and the last report. -/
def statusLine (a : App) : Line :=
  let label (text : String) : Span := ⟨text, { foreground := some .yellow }⟩
  let node := match a.model.focused?.bind a.model.tree.node? with
    | some n => [.raw " | ", label "Node: ", .raw n.tag]
    | none => []
  let report := match a.status with
    | some s => [.raw " | ", ⟨s.text, { foreground := some .cyan, bold := true }⟩]
    | none => []
  [label "Focus: ", .raw (Path.text a.model.path)] ++ node ++ report

def statusBar (a : App) (width : Nat) : ScreenRow := rowOf width statusStyle (statusLine a)

/-! ### The whole -/

/-- The message on a terminal with too few columns. -/
def tooNarrow (width height : Nat) : List ScreenRow :=
  let style : Style := { foreground := some .red, bold := true }
  let message := "Terminal too narrow: " ++ toString width ++ " < " ++ toString minWidth ++ " chars"
  match height with
  | 0 => []
  | below + 1 =>
    rowOf width style [.raw message] :: List.replicate below (rowOf width style [])

/-- The screen of a viewer, for an input of some name. -/
def draw (a : App) (name : String) (width height : Nat) : List ScreenRow :=
  if width < minWidth then tooNarrow width height
  else [titleBar name width] ++ panes a width (height - 2) ++ [statusBar a width]

/-- The text of a row, without blanks at its end. -/
def rowText (row : ScreenRow) : String :=
  String.ofList (Text.trimRight (row.map Cell.char))

/-- The styles of a row: each with the column from which it holds, up to the next one. -/
def styleRuns (column : Nat) (prev : Option Style) : ScreenRow → List (Nat × Style)
  | [] => []
  | c :: rest =>
    let others := styleRuns (column + 1) (some c.style) rest
    if prev = some c.style then others else (column, c.style) :: others

end Screen

end SyntaxLens.Viewer

import SyntaxLens.Command.Arguments
import SyntaxLens.Command.Environment
import SyntaxLens.Focus.State

/-! # The printing command

Loads a tree, puts the focus on a path, moves it, and prints the tree in a format or the path that
was reached.

* `Print.reach` is the navigation: a path that leads nowhere leaves the focus on the root, and a
  move that is not possible changes nothing.
* `Print.run` is the command. Of several faults the first in this order is reported: arguments,
  settings, format, tree, path, moves. -/

namespace SyntaxLens.Command.Print

def usage : Usage := ⟨[
  ⟨"format", some 'f', true, false⟩,
  ⟨"focus", none, true, false⟩,
  ⟨"move", some 'm', true, true⟩,
  ⟨"config", some 'c', true, false⟩,
  ⟨"list-formats", none, false, false⟩,
  ⟨"print-path", none, false, false⟩]⟩

/-- What the command is asked to do. -/
structure Request where
  /-- The file of the tree, or a dash for the input. -/
  source : Option String
  format : Option String
  focus : String
  /-- Moves, with commas between them. -/
  moves : List String
  settings : Option String
  listFormats : Bool
  printPath : Bool
deriving DecidableEq, Repr

def Request.ofGiven (given : List Given) : Request where
  source := Given.name? given
  format := Given.value? given "format"
  focus := (Given.value? given "focus").getD Path.rootText
  moves := Given.values given "move"
  settings := Given.value? given "config"
  listFormats := Given.has given "list-formats"
  printPath := Given.has given "print-path"

/-! ### Navigation -/

/-- The moves of a list. What is blank between two commas is no move. -/
def parseMoves (texts : List String) : Except DirectionError (List Direction) :=
  let words := texts.flatMap fun text => Text.pieces ',' text.toList
  (words.filter (!Text.isAllBlank ·)).mapM fun word => Direction.parse (String.ofList word)

/-- The focus after moves from a path. -/
def reach (t : Tree) (path : Path) (moves : List Direction) : Focus :=
  moves.foldl (fun f d => (f.move d).1) ((Focus.ofTree t).setPath path).1

/-! ### Output -/

/-- A text with a line end. -/
def closeLine (text : String) : String := if text.endsWith "\n" then text else text ++ "\n"

/-- The formats with their descriptions. -/
def formatList (r : Registry) : String :=
  "Available output formats:\n\n" ++
    String.join (r.descriptions.map fun (name, description) =>
      "  " ++ name ++ "\n" ++
        (if description.isEmpty then "" else "    " ++ description ++ "\n") ++ "\n")

/-! ### The command -/

/-- The tree of a source. -/
def readSource (e : Environment) (source : String) : Except Failure Tree :=
  if source = "-" then
    match e.input with
    | .ok text => (Document.loadText text).mapError .load
    | .error cause => .error (.input cause)
  else readTree e.surroundings.files source

/-- Prints the tree of a source. -/
def printSource (e : Environment) (settings : Settings) (r : Request) (source : String) :
    Except Failure String := do
  let registry := Registry.standard settings.formatOptions
  let format := r.format.getD settings.defaultFormat
  if !registry.has format then throw (.format (.notFound format))
  let t ← readSource e source
  let path ← (Path.parse r.focus).mapError .focus
  let moves ← (parseMoves r.moves).mapError .move
  let f := reach t path moves
  if r.printPath then return Path.text f.path ++ "\n"
  let text ← (registry.print format f.tree f.path).mapError .format
  return closeLine text

/-- Does what is asked. -/
def perform (e : Environment) (r : Request) : Except Failure String := do
  let settings ← (readSettings e r.settings).mapError .configuration
  if r.listFormats then return formatList (Registry.standard settings.formatOptions)
  match r.source with
  | some source => printSource e settings r source
  | none => return ""

/-- Runs the command. -/
def run (e : Environment) (args : List String) : Outcome :=
  match usage.read args with
  | .error .version => .done "astedit 0.1.0\n"
  | .error .help => .help
  | .error .misuse => .misused
  | .ok given =>
    let r := Request.ofGiven given
    if given.isEmpty then .idle
    else if r.source.isNone && !r.listFormats then .misused
    else match perform e r with
      | .ok output => .done output
      | .error cause => .failed cause

/-- How the command is used. -/
def help : String :=
  "Usage: astedit [-f FORMAT] [--focus PATH] [-m MOVES] [-c FILE] [--print-path] PATH\n" ++
  "       astedit --list-formats\n"

end SyntaxLens.Command.Print

import SyntaxLens.Document.Load
import SyntaxLens.Settings.Basic
import SyntaxLens.Viewer.CodePane
import SyntaxLens.Viewer.OutlinePane

/-! # The viewer

The state of the viewer and what keys and new trees make of it.

* `q`, and `c` with the control key, end it; the tabulator changes the pane; `r` reads the source
  again. Every other key goes to the pane in use, and what that asks for is done.
* A source that does not load leaves everything as it is, except that the status says so. -/

namespace SyntaxLens.Viewer

inductive Pane where
  | code | outline
deriving DecidableEq, Repr

def Pane.other : Pane → Pane
  | .code => .outline
  | .outline => .code

/-- What the status line reports. -/
inductive Status where
  | cannotMove (d : Direction)
  | nothingToReload
  | reloaded
  | reloadFailed (cause : LoadError)
  | snapshot (number : Nat)
deriving DecidableEq, Repr

def Status.text : Status → String
  | .cannotMove d => "cannot move " ++ d.word ++ " from here"
  | .nothingToReload => "nothing to reload"
  | .reloaded => "reloaded"
  | .reloadFailed cause => "reload failed: " ++ cause.message
  | .snapshot number => "snapshot " ++ toString number

structure App where
  model : Model
  pane : Pane
  /-- One level of indent in the code pane. -/
  indent : String
  /-- The columns of the outline pane, if there is room for them. -/
  outlineWidth : Nat
  quit : Bool
  status : Option Status
  /-- The file that the tree comes from, if it comes from one. -/
  source : Option String
  /-- How many snapshots have come. -/
  snapshots : Nat

namespace App

/-- The viewer of a tree at the start. -/
def start (m : Model) (settings : Settings) (source : Option String) : App where
  model := m
  pane := if settings.startInOutline then .outline else .code
  indent := settings.indent
  outlineWidth := settings.outlineWidth
  quit := false
  status := none
  source := source
  snapshots := 0

variable (a : App)

/-- Does what a pane asks for. -/
def apply : Event → App
  | .move d =>
    let (m, moved) := a.model.move d
    if moved then { a with model := m, status := none }
    else { a with status := some (.cannotMove d) }
  | .select id => { a with model := (a.model.focusOn id).1, status := none }
  | .toggle id => { a with model := a.model.toggle id }
  | .none => a

/-- Reads the source again. -/
def reload (files : Files) : App :=
  match a.source with
  | none => { a with status := some .nothingToReload }
  | some name =>
    match Document.loadFile files name with
    | .ok t => { a with model := .ofTree t, status := some .reloaded }
    | .error cause => { a with status := some (.reloadFailed cause) }

/-- Shows the tree of a snapshot. -/
def snapshot (t : Tree) : App :=
  { a with
    model := .ofTree t
    snapshots := a.snapshots + 1
    status := some (.snapshot (a.snapshots + 1)) }

/-- What the pane in use asks for at a key. -/
def event (key : Key) : Event :=
  match a.pane with
  | .code => CodePane.event key
  | .outline => OutlinePane.event a.model key

/-- Handles a key, and gives what a pane asked for. -/
def press (files : Files) (k : KeyPress) : App × Event :=
  if k.key = .char 'q' ∨ (k.key = .char 'c' ∧ k.control) then ({ a with quit := true }, .none)
  else if k.key = .tab then ({ a with pane := a.pane.other }, .none)
  else if k.key = .char 'r' then (a.reload files, .none)
  else (a.apply (a.event k.key), a.event k.key)

end App

end SyntaxLens.Viewer

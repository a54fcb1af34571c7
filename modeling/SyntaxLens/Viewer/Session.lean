import SyntaxLens.Document.Snapshots
import SyntaxLens.Viewer.App

/-! # Sessions

The viewer of a stream works in turns. At the beginning of a turn it takes all results that wait and
shows the last tree among them, if there is one; then it handles the keys that were pressed. It
begins with some tree and has no source to read again: all other trees come from the stream. -/

namespace SyntaxLens.Viewer

namespace App

variable (a : App)

/-- Shows the tree that was taken from a stream, if one was. -/
def refresh : Option Tree → App
  | some t => a.snapshot t
  | none => a

/-- Handles keys, one after the other. -/
def pressAll (files : Files) (keys : List KeyPress) : App :=
  keys.foldl (fun a k => (a.press files k).1) a

end App

/-- A viewer and the stream that its trees come from. -/
structure Session where
  app : App
  stream : Snapshots

namespace Session

/-- The viewer of a stream at the start. -/
def start (m : Model) (settings : Settings) (stream : Snapshots) : Session :=
  ⟨.start m settings none, stream⟩

/-- A turn in which no result comes while the viewer takes those that wait. -/
def turn (files : Files) (keys : List KeyPress) (s : Session) : Session :=
  let (newest, stream) := s.stream.latest
  ⟨(s.app.refresh newest).pressAll files keys, stream⟩

end Session

end SyntaxLens.Viewer

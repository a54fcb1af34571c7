import SyntaxLens.Files
import SyntaxLens.Settings.Basic

/-! # The loader of settings

Settings are put together in layers by a library: the text of the defaults first, then what a
program asks for, step by step.

* `Library` is what a library for settings does.
* `Layer` is a step by which a layer is asked for.
* `Library.load` asks the library for all layers, and has it read the settings from them. -/

namespace SyntaxLens

/-- What settings may be read from: the directory for a user's settings, the user's own directory,
the directory in which the program runs, and files. -/
structure Surroundings where
  settingsHome : Option String
  home : Option String
  directory : String
  files : Files

/-- The name of the user's file. -/
def userFileName? (settingsHome home : Option String) : Option String :=
  let base := match settingsHome with
    | some "" | none => home.map (joinName · ".config")
    | some directory => some directory
  base.map fun directory => joinName (joinName directory "astedit") "config.toml"

/-- A source of settings. -/
inductive Source where
  | text (text : String)
  /-- A file, and whether it has to be there. -/
  | file (name : String) (required : Bool)
deriving DecidableEq, Repr

/-- A library for settings, with its values `V`, configurations `C`, builders `B` of these, and
errors `E`. -/
structure Library (V C B E : Type) where
  builder : B
  addSource : B → Source → B
  setOverride : B → String → V → Except E B
  build : Surroundings → B → Except E C
  read : C → Except E Settings

/-- A step by which a layer is asked for. -/
inductive Layer (V : Type) where
  /-- A file that has to be there. -/
  | file (name : String)
  /-- A file that may be missing. -/
  | optionalFile (name : String)
  /-- The user's file, which may be missing. -/
  | userFile
  /-- A single value. -/
  | override (key : String) (value : V)
deriving Repr

namespace Library

variable {V C B E : Type} (L : Library V C B E) (s : Surroundings)

/-- Asks for a layer. -/
def ask (b : B) : Layer V → Except E B
  | .file name => .ok (L.addSource b (.file name true))
  | .optionalFile name => .ok (L.addSource b (.file name false))
  | .userFile =>
    match userFileName? s.settingsHome s.home with
    | some name => .ok (L.addSource b (.file name false))
    | none => .ok b
  | .override key v => L.setOverride b key v

/-- The configuration that a list of steps gives. -/
def merged (layers : List (Layer V)) : Except E C := do
  let b ← layers.foldlM (L.ask s) (L.addSource L.builder (.text Settings.defaultText))
  L.build s b

/-- The settings that a list of steps gives. -/
def load (layers : List (Layer V)) : Except E Settings := do
  L.read (← L.merged s layers)

end Library

end SyntaxLens

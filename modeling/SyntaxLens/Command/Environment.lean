import SyntaxLens.Document.Load
import SyntaxLens.Focus.Direction
import SyntaxLens.Settings.Layers

/-! # The environment of a command

What a command reads, and what comes of it. -/

namespace SyntaxLens.Command

/-- What a command may read: files and the places of settings, and its input. `append` opens a file
for writing at its end, and gives the files as they are then: a file that was missing is there. -/
structure Environment where
  surroundings : Surroundings
  input : Except FileError String
  append : String → Except FileError Files

/-- Why a command fails. -/
inductive Failure where
  /-- The settings of printing. -/
  | configuration (cause : SettingsError)
  /-- The settings of the viewer. -/
  | settings (cause : SettingsError)
  | load (cause : LoadError)
  | input (cause : FileError)
  | format (cause : FormatError)
  | focus (cause : PathError)
  | move (cause : DirectionError)
  | logFile (name : String) (cause : FileError)
  | file (cause : FileError)
  | terminal (cause : FileError)
deriving DecidableEq, Repr

def Failure.message : Failure → String
  | .configuration cause => "configuration: " ++ cause.message
  | .settings cause => cause.message
  | .load cause => cause.message
  | .input cause => "failed to read standard input: " ++ cause.message
  | .format cause => cause.message
  | .focus cause => "invalid focus path: " ++ cause.message
  | .move cause => cause.message
  | .logFile name cause => "cannot open log file " ++ name ++ ": " ++ cause.message
  | .file cause => cause.message
  | .terminal cause => "terminal error: " ++ cause.message

/-- What comes of a command. -/
inductive Outcome where
  /-- It is done, and has written its output. -/
  | done (output : String)
  | failed (cause : Failure)
  /-- Its arguments are at fault. -/
  | misused
  /-- It was given nothing to do, and shows how it is used. -/
  | idle
  /-- It was asked how it is used. -/
  | help
deriving DecidableEq, Repr

/-- What a system is told about the end of a command. -/
def Outcome.code : Outcome → Nat
  | .done _ | .help => 0
  | .failed _ => 1
  | .misused | .idle => 2

/-- The settings of a command: those of the user, and those of a file that it is given. -/
def readSettings (e : Environment) (file : Option String) : Except SettingsError Settings :=
  Settings.build e.surroundings (.userFile :: (file.map Layer.file).toList)

/-- The tree of a file. -/
def readTree (files : Files) (name : String) : Except Failure Tree :=
  (Document.loadFile files name).mapError .load

end SyntaxLens.Command

import SyntaxLens.Command.Arguments
import SyntaxLens.Command.Environment

/-! # The viewing command

Starts the viewer on a tree, or on a stream of snapshots.

* `View.run` is the command, on a system without a terminal: whatever can go wrong before the
  terminal is needed goes wrong first, in the order of arguments, settings, log file and tree. -/

namespace SyntaxLens.Command.View

def usage : Usage := ⟨[
  ⟨"follow", none, false, false⟩,
  ⟨"config", some 'c', true, false⟩,
  ⟨"log-file", none, true, false⟩]⟩

/-- What the command is asked to do. -/
structure Request where
  /-- The file of the tree or the stream, or a dash for a stream on the input. -/
  source : String
  follow : Bool
  settings : Option String
  logFile : Option String
deriving DecidableEq, Repr

def Request.ofGiven? (given : List Given) : Option Request :=
  (Given.name? given).map fun source => {
    source := source
    follow := Given.has given "follow"
    settings := Given.value? given "config"
    logFile := Given.value? given "log-file" }

/-- Why there is no terminal. -/
def noTerminal : FileError := .other "No such device or address (os error 6)"

/-- Checks that a stream can be opened. A directory can be, although it cannot be read. -/
def openStream (files : Files) (name : String) : Except Failure Unit :=
  match files name with
  | .ok _ | .error .directory | .error .invalidText => .ok ()
  | .error cause => .error (.file cause)

/-- Goes up to where the terminal is needed. -/
def prepare (e : Environment) (r : Request) : Except Failure Unit := do
  let _ ← (readSettings e r.settings).mapError .settings
  let files ← match r.logFile with
    | some name => (e.append name).mapError (.logFile name)
    | none => pure e.surroundings.files
  if r.source = "-" then return ()
  else if r.follow then openStream files r.source
  else do
    let _ ← readTree files r.source
    return ()

/-- Runs the command. -/
def run (e : Environment) (args : List String) : Outcome :=
  match usage.read args with
  | .error .version => .done "asteditv 0.1.0\n"
  | .error .help => .help
  | .error .misuse => .misused
  | .ok given =>
    match Request.ofGiven? given with
    | none => .misused
    | some r =>
      match prepare e r with
      | .ok () => .failed (.terminal noTerminal)
      | .error cause => .failed cause

/-- How the command is used. -/
def help : String := "Usage: asteditv [--follow] [-c FILE] [--log-file FILE] PATH\n"

end SyntaxLens.Command.View

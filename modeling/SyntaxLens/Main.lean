import SyntaxLens.Command.Print
import SyntaxLens.Command.View

/-! # The program

Runs the printing command, or the viewing command when it is called by that name. Everything a
command may read is read beforehand. -/

namespace SyntaxLens.Program

/-- What the system said about a file. -/
def fileError (e : IO.Error) : FileError :=
  match e with
  | .noFileOrDirectory .. => .missing
  | _ => .other e.toString

/-- The text of a file. -/
def readFile (name : String) : IO (Except FileError String) := do
  try
    let bytes ← IO.FS.readBinFile name
    return match String.fromUTF8? bytes with
      | some text => .ok text
      | none => .error .invalidText
  catch e => return .error (fileError e)

/-- The texts of some files; there are no others. -/
def readFiles (names : List String) : IO Files := do
  let texts ← names.mapM fun name => do return (name, ← readFile name)
  return fun name => (texts.lookup name).getD (.error .missing)

/-- What is left of a stream, behind what has been read. -/
partial def drain (input : IO.FS.Stream) (before : ByteArray) : IO ByteArray := do
  let bytes ← input.read 65536
  if bytes.isEmpty then return before
  drain input (before ++ bytes)

/-- The text of the input. -/
def readInput : IO (Except FileError String) := do
  let bytes ← drain (← IO.getStdin) .empty
  return match String.fromUTF8? bytes with
    | some text => .ok text
    | none => .error .invalidText

/-- Opens a file for writing at its end. -/
def openLog (name : String) : IO (Except FileError Unit) := do
  try
    let _ ← IO.FS.Handle.mk name .append
    return .ok ()
  catch e => return .error (fileError e)

/-- The environment of a command that is given some arguments. -/
def environment (given : List Command.Given) : IO Command.Environment := do
  let settingsHome ← IO.getEnv "XDG_CONFIG_HOME"
  let home ← IO.getEnv "HOME"
  let source := Command.Given.name? given
  let settings := Command.Given.values given "config" ++ (userFileName? settingsHome home).toList
  let files ← readFiles (source.toList ++ settings.flatMap settingsFileNames)
  let input ← if source == some "-" then readInput else pure (.ok "")
  let surroundings : Surroundings := {
    settingsHome := settingsHome
    home := home
    directory := toString (← IO.currentDir)
    files := files }
  return { surroundings := surroundings, input := input, append := fun _ => .ok files }

/-- Reports what came of a command. -/
def report (help : String) (outcome : Command.Outcome) : IO UInt32 := do
  match outcome with
  | .done output => IO.print output
  | .failed cause => IO.eprintln ("Error: " ++ cause.message)
  | .misused => IO.eprint ("error: invalid arguments\n\n" ++ help)
  | .idle => IO.eprint help
  | .help => IO.print help
  return outcome.code.toUInt32

def runPrint (args : List String) : IO UInt32 := do
  let e ← environment ((Command.Print.usage.read args).toOption.getD [])
  report Command.Print.help (Command.Print.run e args)

/-- Runs the viewing command. The log file is opened once the settings are known to be good. -/
def runView (args : List String) : IO UInt32 := do
  let given := (Command.View.usage.read args).toOption.getD []
  let e ← environment given
  let outcome ← match Command.View.run e args, Command.Given.value? given "log-file" with
    | .failed (.settings cause), _ => pure (.failed (.settings cause))
    | .failed _, some name => do
      let opened ← openLog name
      let files := (← environment given).surroundings.files
      pure (Command.View.run { e with append := fun _ => opened.map fun _ => files } args)
    | outcome, _ => pure outcome
  report Command.View.help outcome

end SyntaxLens.Program

def main (args : List String) : IO UInt32 := do
  let name := (← IO.appPath).fileName
  if name == some "asteditv" then SyntaxLens.Program.runView args
  else SyntaxLens.Program.runPrint args

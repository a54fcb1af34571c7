import SyntaxLens.Settings.Groups
import SyntaxLens.Settings.Key
import SyntaxLens.Settings.Loader
import SyntaxLens.Toml.Parser

/-! # Layers of settings

The library for settings reads files in TOML, and keeps what they say in one table of values. What a
layer says about a setting holds over all layers below it; what it does not mention stays.

* `Settings.collect` says what a source puts at keys.
* `Settings.library` takes sources in the order in which they are added, and then the single values.
* `Settings.build` loads settings by this library. Keys are checked first, then the files in order,
  then the values. -/

namespace SyntaxLens

/-- Why there are no settings. -/
inductive SettingsError where
  | badKey (key : String)
  | missingFile (name : String)
  /-- A source cannot be read beyond a place. -/
  | malformed (file : Option String) (place : Toml.Position)
  /-- The whole of a source is a single value. -/
  | noTable (file : Option String) (found : Shape)
  | unreadable (cause : ReadError)
deriving DecidableEq, Repr

def SettingsError.message : SettingsError → String
  | .badKey key => "invalid key " ++ Text.quoted key
  | .missingFile name => "configuration file \"" ++ name ++ "\" not found"
  | .malformed file place =>
    "TOML parse error at line " ++ toString place.line ++ ", column " ++ toString place.column ++
      (match file with
        | some file => "\n in " ++ file
        | none => "\n")
  | .noTable file found =>
    "invalid type: " ++ found.phrase ++ ", expected a map" ++
      (match file with
        | some file => " in " ++ file ++ " in " ++ file
        | none => "")
  | .unreadable cause => cause.message

/-- The names by which a file of settings is looked for. -/
def settingsFileNames (name : String) : List String :=
  name :: (withEnding? ".toml" name).toList

/-- The file of settings of a name: its own name, as it is shown, and its text. -/
def Surroundings.settingsFile? (s : Surroundings) (name : String) : Option (String × String) :=
  (settingsFileNames name).findSome? fun name =>
    match s.files name with
    | .ok text => some (relativeName s.directory name, text)
    | .error _ => none

namespace Settings

/-! ### Sources -/

/-- A text without the mark of the byte order in front of it. -/
def withoutMark (text : String) : String :=
  match text.toList with
  | '\ufeff' :: rest => String.ofList rest
  | _ => text

/-- The entries of the table that a text holds. -/
def readText (file : Option String) (text : String) : Except SettingsError Value.Entries :=
  match Toml.parse (withoutMark text) with
  | .ok v =>
    match v.shape with
    | .table => .ok (match file with
      | some file => (v.ofFile file).entries
      | none => v.entries)
    | found => .error (.noTable file found)
  | .error place => .error (.malformed file place)

/-- The entries of a source; a file that is missing has none. -/
def readSource (s : Surroundings) : Source → Except SettingsError Value.Entries
  | .text text => readText none text
  | .file name required =>
    match s.settingsFile? name with
    | some (file, text) => readText file text
    | none => if required then .error (.missingFile name) else .ok []

/-- What a source puts at keys. The name of an entry is a key if it can be one. -/
def collect (s : Surroundings) (source : Source) : Except SettingsError (List (Key × Value)) :=
  (readSource s source).map fun es =>
    es.map fun e => ((Key.parse? e.1).getD [.name e.1], e.2)

/-! ### Configurations -/

/-- Puts a value at a key, into the table with some entries. -/
def putEntry (es : Value.Entries) (k : Key) (v : Value) : Value.Entries :=
  ((Value.table es none).putAt k v).entries

/-- Puts values at keys, one after the other. -/
def putEntries (es : Value.Entries) (ps : List (Key × Value)) : Value.Entries :=
  ps.foldl (fun es p => putEntry es p.1 p.2) es

/-- What layers have been asked for: sources, and single values with their keys taken apart. -/
structure Builder where
  sources : List Source
  overrides : List (Key × Value)

def library : Library Value Value.Entries Builder SettingsError where
  builder := ⟨[], []⟩
  addSource b source := { b with sources := b.sources ++ [source] }
  setOverride b key v :=
    match Key.parse? key with
    | some k => .ok { b with overrides := b.overrides ++ [(k, v)] }
    | none => .error (.badKey key)
  build s b := do
    let groups ← b.sources.mapM (collect s)
    return putEntries (putEntries [] groups.flatten) b.overrides
  read es := (ofValue (.table es none)).mapError .unreadable

/-- The settings that a list of steps gives. -/
def build (s : Surroundings) (layers : List (Layer Value)) : Except SettingsError Settings :=
  library.load s layers

end Settings

end SyntaxLens

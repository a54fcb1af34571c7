import SyntaxLens.Text.Pieces

/-! # Files

What a program can read: the text of each file by name, or why there is none.

* `components` takes a name apart. `joinName`, `withEnding?` and `relativeName` make further names:
  below a directory, with an ending, and as seen from a directory. -/

namespace SyntaxLens

/-- Why a file is not read or written. -/
inductive FileError where
  | missing
  | directory
  | notDirectory
  | invalidText
  | other (cause : String)
deriving DecidableEq, Repr

def FileError.message : FileError → String
  | .missing => "No such file or directory (os error 2)"
  | .directory => "Is a directory (os error 21)"
  | .notDirectory => "Not a directory (os error 20)"
  | .invalidText => "stream did not contain valid UTF-8"
  | .other cause => cause

/-- The files that can be read, by name. -/
abbrev Files := String → Except FileError String

/-! ### Names -/

/-- The components of a name, without those that stand for the directory they are in. -/
def components (name : String) : List String :=
  let words := (Text.pieces '/' name.toList).map String.ofList
  words.filter fun c => !c.isEmpty && c != "."

/-- Whether a name is one in every directory. -/
def isAbsolute (name : String) : Bool := name.startsWith "/"

/-- A name below a directory. -/
def joinName (directory name : String) : String :=
  if directory.isEmpty || directory.endsWith "/" then directory ++ name
  else directory ++ "/" ++ name

/-- The name with an ending behind its last component, if that is a component of its own. -/
def withEnding? (ending name : String) : Option String :=
  match (components name).reverse with
  | [] | ".." :: _ => none
  | last :: before =>
    let relative := "/".intercalate (before.reverse ++ [last ++ ending])
    some (if isAbsolute name then "/" ++ relative else relative)

/-- The way from one directory to another place. -/
def way : List String → List String → List String
  | d :: directory, c :: place =>
    if d = c then way directory place
    else List.replicate (directory.length + 1) ".." ++ c :: place
  | directory, place => List.replicate directory.length ".." ++ place

/-- A name as it is seen from a directory. -/
def relativeName (directory name : String) : String :=
  "/".intercalate <|
    if isAbsolute name then way (components directory) (components name) else components name

end SyntaxLens

import SyntaxLens.Format.Outline
import SyntaxLens.Format.Tag
import SyntaxLens.Fragment.Layout
import SyntaxLens.Fragment.Written
import SyntaxLens.Rendering.Render
import SyntaxLens.Yaml.Printer

/-! # Formats

A format prints a tree with its focus. Formats are kept by name; a registry lists each name once, in
the order of names.

* `Registry.standard` holds the five formats of the library: the text of the rendered tree, its
  markup, its value as JSON or YAML, and the outline of the tree.
* `Registry.print` prints in the format of a name. -/

namespace SyntaxLens

/-- Why a tree is not printed. -/
inductive FormatError where
  | notFound (name : String)
  | serialization (cause : String)
deriving DecidableEq, Repr

def FormatError.message : FormatError → String
  | .notFound name => "format '" ++ name ++ "' not found"
  | .serialization cause => "serialization error: " ++ cause

/-- A way to print a tree with its focus. -/
structure Format where
  name : String
  description : String
  print : Tree → Path → Except FormatError String

/-- What can be chosen about the standard formats: one level of indent in texts, and after how many
characters labels are cut in outlines. -/
structure FormatOptions where
  indent : String := "  "
  labelWidth : Nat := 30
deriving DecidableEq, Repr

namespace Format

def text (options : FormatOptions) : Format where
  name := "text"
  description := "Source-like text with the focused node marked"
  print t focus := .ok (((t.renderRoot (some focus)).map (·.toText options.indent)).getD "")

def tag : Format where
  name := "tag"
  description := "XML-like markup of the rendered fragments"
  print t focus :=
    .ok (((t.renderRoot (some focus)).map Fragment.toMarkup).getD Fragment.emptyMarkup)

def outline (options : FormatOptions) : Format where
  name := "treeviz"
  description := "Syntax outline with box-drawing connectors and category icons"
  print t focus := .ok (t.outline focus options.labelWidth)

/-- The value of a rendered tree; null if nothing was rendered. -/
def value (t : Tree) (focus : Path) : Json :=
  ((t.renderRoot (some focus)).map Fragment.toJson).getD .null

def json : Format where
  name := "json"
  description := "Fragment tree as pretty-printed JSON"
  print t focus := .ok (value t focus).pretty

def yaml : Format where
  name := "yaml"
  description := "Fragment tree as YAML"
  print t focus := .ok (Yaml.document (value t focus))

end Format

/-- Formats in the order of their names. -/
structure Registry where
  formats : List Format

namespace Registry

def empty : Registry := ⟨[]⟩

/-- Puts a format at its place. A format of the same name is replaced. -/
def insert (f : Format) : List Format → List Format
  | [] => [f]
  | g :: rest =>
    if f.name < g.name then f :: g :: rest
    else if f.name = g.name then f :: rest
    else g :: insert f rest

variable (r : Registry)

def register (f : Format) : Registry := ⟨insert f r.formats⟩

def get? (name : String) : Option Format := r.formats.find? fun f => f.name == name

def has (name : String) : Bool := (r.get? name).isSome

def names : List String := r.formats.map Format.name

/-- The names with their descriptions. -/
def descriptions : List (String × String) := r.formats.map fun f => (f.name, f.description)

/-- Prints a tree in the format of a name. -/
def print (name : String) (t : Tree) (focus : Path) : Except FormatError String :=
  match r.get? name with
  | some f => f.print t focus
  | none => .error (.notFound name)

/-- The formats of the library. -/
def standard (options : FormatOptions) : Registry :=
  [Format.text options, Format.tag, Format.outline options, Format.json, Format.yaml].foldl
    register empty

end Registry

end SyntaxLens

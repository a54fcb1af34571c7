import SyntaxLens.Settings.Basic
import SyntaxLens.Settings.Coercion

/-! # Groups of settings

Settings are read from a table of their groups (`Settings.ofValue`). A group is a table, or a list
that gives its members in their order. What is there has to be of its type, and all has to be
there. -/

namespace SyntaxLens

/-! ### Groups -/

/-- A group of settings, or of groups. -/
inductive Group where
  | all
  | render
  | formats
  | text
  | treeviz
  | viewer
  | logging
deriving DecidableEq, Repr

namespace Group

/-- The names of the members of a group, in their order. -/
def members : Group → List String
  | .all => ["render", "formats", "viewer", "logging"]
  | .render => ["default_format"]
  | .formats => ["text", "treeviz"]
  | .text => ["indent_string"]
  | .treeviz => ["label_width"]
  | .viewer => ["outline_width", "start_in_outline", "tick_rate_ms"]
  | .logging => ["level"]

/-- What a group is called in messages. -/
def title : Group → String
  | .all => "AsteditConfig"
  | .render => "RenderConfig"
  | .formats => "FormatsConfig"
  | .text => "TextFormatConfig"
  | .treeviz => "TreevizFormatConfig"
  | .viewer => "ViewerConfig"
  | .logging => "LoggingConfig"

end Group

/-! ### Errors -/

/-- Why a value does not give settings. -/
inductive ReadError where
  /-- The value at a key does not do for its setting; `origin` is the file that it comes from. -/
  | mismatch (cause : Mismatch) (key : Settings.Key) (origin : Option String)
  /-- A single value stands for a group. -/
  | noGroup (found : Shape) (group : Group)
  /-- A list has too few elements for its group. -/
  | short (count : Nat) (group : Group)
  /-- A table lacks a member of its group. -/
  | missing (name : String)
deriving DecidableEq, Repr

namespace ReadError

/-- An error of a value, seen from the group that holds it. -/
def under (s : Settings.Step) : ReadError → ReadError
  | .mismatch cause key origin => .mismatch cause (s :: key) origin
  | e => e

/-- What stands for a group, in a message. A number has a point unless it is an integer. -/
def found : Shape → String
  | .atom (.integer n) => "integer \x60" ++ toString n ++ "\x60"
  | .atom (.real x) =>
    "floating point \x60" ++ x.text ++ (if x.text.contains '.' then "" else ".0") ++ "\x60"
  | s => s.phrase

def message : ReadError → String
  | .mismatch cause key origin =>
    let place := match origin with
      | some file => " in " ++ file
      | none => ""
    cause.message ++ " for key \x60" ++ Settings.Key.text key ++ "\x60" ++ place
  | .noGroup shape group =>
    "invalid type: " ++ found shape ++ ", expected struct " ++ group.title
  | .short count group =>
    let size := group.members.length
    "invalid length " ++ toString count ++ ", expected struct " ++ group.title ++ " with " ++
      toString size ++ (if size = 1 then " element" else " elements")
  | .missing name => "missing field \x60" ++ name ++ "\x60"

end ReadError

namespace Settings

/-! ### Reading -/

variable {α : Type}

/-- The value of a member of a group, with the step to it, and why it is missing if it is. -/
def lookUp (g : Group) (name : String) (v : Value) :
    Except ReadError (Except ReadError (Step × Value)) :=
  let i := g.members.idxOf name
  match v with
  | .table es _ => .ok <|
    match es.lookup name with
    | some w => .ok (.name name, w)
    | none => .error (.missing name)
  | .list vs _ => .ok <|
    match vs[i]? with
    | some w => .ok (.index i, w)
    | none => .error (.short i g)
  | _ => .error (.noGroup v.shape g)

/-- Reads a member of a group by `read`. One that is missing is an error for later, when the others
have been read. -/
def member (g : Group) (name : String) (read : Value → Except ReadError α) (v : Value) :
    Except ReadError (Except ReadError α) := do
  match ← lookUp g name v with
  | .ok (s, w) => return .ok (← (read w).mapError (ReadError.under s))
  | .error e => return .error e

/-- Reads a setting by a coercion. A number that is too large does not tell where it comes from. -/
def setting (f : Value → Except Mismatch α) (v : Value) : Except ReadError α :=
  (f v).mapError fun cause =>
    .mismatch cause [] (match cause with
      | .tooLarge _ => none
      | _ => v.origin)

/-- A group whose only member is a setting. -/
def single (g : Group) (name : String) (f : Value → Except Mismatch α) (v : Value) :
    Except ReadError α := do
  ← member g name (setting f) v

/-- The indent and the width of labels. -/
def readFormats (v : Value) : Except ReadError (String × Nat) := do
  let indent ← member .formats "text" (single .text "indent_string" Value.text) v
  let width ← member .formats "treeviz" (single .treeviz "label_width" Value.nat) v
  return (← indent, ← width)

/-- The width of the outline, where the viewer begins, and its pace. -/
def readViewer (v : Value) : Except ReadError (Nat × Bool × Nat) := do
  let width ← member .viewer "outline_width" (setting Value.nat16) v
  let start ← member .viewer "start_in_outline" (setting Value.bool) v
  let rate ← member .viewer "tick_rate_ms" (setting Value.nat) v
  return (← width, ← start, ← rate)

/-- Reads settings from a table of their groups. -/
def ofValue (root : Value) : Except ReadError Settings := do
  let format ← member .all "render" (single .render "default_format" Value.text) root
  let formats ← member .all "formats" readFormats root
  let viewer ← member .all "viewer" readViewer root
  let level ← member .all "logging" (single .logging "level" Value.text) root
  let format ← format
  let (indent, labelWidth) ← formats
  let (outlineWidth, startInOutline, tickRate) ← viewer
  return ⟨format, indent, labelWidth, outlineWidth, startInOutline, tickRate, ← level⟩

end Settings

end SyntaxLens

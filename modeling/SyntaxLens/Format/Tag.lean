import SyntaxLens.Fragment.Basic

/-! # Markup

A fragment as nested elements, one a line, two spaces of indent a level. Leaves are elements named
for their class, nodes carry their tag, path and flow, groups their flow only. In texts and
properties the five characters with a meaning in markup are written as entities. -/

namespace SyntaxLens.Fragment

namespace Markup

/-- The written form of a character. -/
def escape (c : Char) : List Char :=
  match c with
  | '&' => "&amp;".toList
  | '<' => "&lt;".toList
  | '>' => "&gt;".toList
  | '"' => "&quot;".toList
  | '\'' => "&apos;".toList
  | _ => [c]

def escaped (s : String) : String := String.ofList (s.toList.flatMap escape)

/-- The name of the element of a leaf. -/
def element : LeafClass → String
  | .plain => "text"
  | kind => kind.name

/-- A property of an element with the space before it. -/
def property (name value : String) : String := " " ++ name ++ "=\"" ++ escaped value ++ "\""

/-- The name of the element of a composite. -/
def name (mark : Option Mark) : String := if mark.isSome then "node" else "group"

/-- The name and the properties of the element of a composite. -/
def opening (flow : Flow) : Option Mark → String
  | some m =>
    "node" ++ property "kind" m.tag ++ property "path" (Path.text m.path) ++
      property "layout" flow.name ++ if m.focused then property "focused" "true" else ""
  | none => "group" ++ property "layout" flow.name

/-- A line at a level. -/
def line (level : Nat) (s : String) : String :=
  String.ofList (List.replicate (2 * level) ' ') ++ s ++ "\n"

mutual

/-- The lines of a fragment at a level. -/
def write (level : Nat) : Fragment → String
  | .leaf l =>
    line level ("<" ++ element l.kind ++ ">" ++ escaped l.text ++ "</" ++ element l.kind ++ ">")
  | .composite flow mark [] => line level ("<" ++ opening flow mark ++ "/>")
  | .composite flow mark (f :: rest) =>
    line level ("<" ++ opening flow mark ++ ">") ++ writeAll (level + 1) (f :: rest) ++
      line level ("</" ++ name mark ++ ">")

def writeAll (level : Nat) : List Fragment → String
  | [] => ""
  | f :: rest => write level f ++ writeAll level rest

end

end Markup

/-- A fragment inside the outermost element. -/
def toMarkup (f : Fragment) : String := "<fragment>\n" ++ Markup.write 1 f ++ "</fragment>"

/-- What is written where nothing was rendered. -/
def emptyMarkup : String := "<fragment>\n</fragment>"

end SyntaxLens.Fragment

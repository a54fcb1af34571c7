import SyntaxLens.Toml.Node

/-! # Tables of a TOML document

A document defines tables by headers and by dotted keys, each of them once.

* `Section` is a table under construction; `Origin` says how it came to be. A table on the way of a
  header to one below it may still get its own header, one made by dotted keys grows by dotted keys
  only, and one with a header of its own is not reached by dotted keys.
* `Statement` is a line of a document that defines something: a header, the header of one more table
  of a list, or a key with its value.
* `Progress.add?` follows a statement; it is `none` if the statement defines again what is there or
  goes through what is no table. -/

namespace SyntaxLens.Toml

/-- How a table came to be. -/
inductive Origin where
  /-- By its own header. -/
  | header
  /-- On the way of a header to a table below. -/
  | passage
  /-- By dotted keys. -/
  | dotted
deriving DecidableEq, Repr

/-- A name of a key, with its place. -/
structure Part where
  name : String
  place : List Char

/-- What a name of a table stands for: a value, a table, or a list of tables, the last of them
apart. Tables have their places; those of a list have their own. -/
inductive Item where
  | value (n : Node)
  | section (origin : Origin) (place : List Char) (entries : List (String × Item))
  | sections (earlier : List (List Char × List (String × Item))) (place : List Char)
      (last : List (String × Item))

/-- The entries of a table under construction. -/
abbrev Section := List (String × Item)

/-- A line of a document that defines something. -/
inductive Statement where
  | header (path : List Part) (last : Part) (place : List Char)
  | element (path : List Part) (last : Part) (place : List Char)
  | entry (path : List Part) (last : Part) (n : Node)

namespace Section

/-- Sets the entry of a name. -/
def set (name : String) (item : Item) : Section → Section
  | [] => [(name, item)]
  | (n, i) :: rest => if n = name then (n, item) :: rest else (n, i) :: set name item rest

/-- Changes the table that a path of headers leads to. Tables that are not there are made. -/
def descend (change : Section → Option Section) : List Part → Section → Option Section
  | [], s => change s
  | part :: rest, s => do
    let item ← match s.lookup part.name with
      | none => (descend change rest []).map (Item.section .passage part.place)
      | some (.section origin place es) =>
        (descend change rest es).map (Item.section origin place)
      | some (.sections earlier place last) =>
        (descend change rest last).map (Item.sections earlier place)
      | some (.value _) => none
    return set part.name item s

/-- Begins the table of a header. A table that was on the way of others comes last now. -/
def openTable (name : String) (place : List Char) (s : Section) : Option Section :=
  match s.lookup name with
  | none => some (s ++ [(name, .section .header place [])])
  | some (.section .passage _ es) =>
    some (s.filter (fun e => e.1 != name) ++ [(name, .section .header place es)])
  | some _ => none

/-- Begins one more table of a list. -/
def openElement (name : String) (place : List Char) (s : Section) : Option Section :=
  match s.lookup name with
  | none => some (s ++ [(name, .sections [] place [])])
  | some (.sections earlier lastPlace last) =>
    some (set name (.sections (earlier ++ [(lastPlace, last)]) place []) s)
  | some _ => none

/-- Puts a value under a dotted key. The table right above it has to be made by dotted keys. -/
def enter (n : Node) (last : Part) : List Part → Section → Option Section
  | [], s =>
    match s.lookup last.name with
    | none => some (s ++ [(last.name, .value n)])
    | some _ => none
  | part :: rest, s => do
    let item ← match s.lookup part.name with
      | none => (enter n last rest []).map (Item.section .dotted part.place)
      | some (.section .dotted place es) =>
        (enter n last rest es).map (Item.section .dotted place)
      | some (.section .passage place es) =>
        if rest.isEmpty then none else (enter n last rest es).map (Item.section .passage place)
      | some (.sections earlier place es) =>
        if rest.isEmpty then none else (enter n last rest es).map (Item.sections earlier place)
      | some (.section .header _ _) | some (.value _) => none
    return set part.name item s

end Section

/-- The table of a document as far as it has been read, and the path of the header that holds. -/
structure Progress where
  root : Section
  here : List Part

def Progress.add? (p : Progress) : Statement → Option Progress
  | .header path last place => do
    return ⟨← p.root.descend (Section.openTable last.name place) path, path ++ [last]⟩
  | .element path last place => do
    return ⟨← p.root.descend (Section.openElement last.name place) path, path ++ [last]⟩
  | .entry path last n => do
    return { p with root := ← p.root.descend (Section.enter n last path) p.here }

mutual

/-- The node of an item. A list of tables is at the first of them. -/
def Item.toNode : Item → Node
  | .value n => n
  | .section _ place es => .table (Section.toEntries es) place
  | .sections earlier place last =>
    let nodes := Section.toTables earlier ++ [.table (Section.toEntries last) place]
    .list nodes ((nodes.head?.map Node.place).getD place)

def Section.toEntries : List (String × Item) → List (String × Node)
  | [] => []
  | (name, item) :: rest => (name, Item.toNode item) :: Section.toEntries rest

def Section.toTables : List (List Char × List (String × Item)) → List Node
  | [] => []
  | (place, es) :: rest => .table (Section.toEntries es) place :: Section.toTables rest

end

end SyntaxLens.Toml

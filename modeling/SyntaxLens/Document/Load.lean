import SyntaxLens.Document.References
import SyntaxLens.Files
import SyntaxLens.Json.Parser
import SyntaxLens.Tree.Basic

/-! # Loading trees

A document is a JSON value in one of two shapes: nested, where the children of a node stand in it,
or flat, a table of nodes by id. Only the document as a whole can fail to load; what is wrong inside
leaves a place empty.

* `Document.draft` finds the shape of a value and gives the draft of its root, without references.
* `Draft.place` numbers the nodes of a draft in the order in which they were read, from the root on,
  and gives the arena.
* `Document.load` does both, `Document.loadText` from a text, `Document.loadFile` from a file.
  `Document.notices` are the reports on the way. -/

namespace SyntaxLens

/-- Why a document does not load. -/
inductive LoadError where
  /-- It cannot be read, for the given cause. -/
  | unreadable (cause : String)
  /-- It is no JSON. -/
  | json (cause : Json.ParseError)
  /-- It is neither a node nor a table of nodes. -/
  | notANode
  /-- It is a table without a root. -/
  | missingRoot
deriving DecidableEq, Repr

def LoadError.message : LoadError → String
  | .unreadable cause => "failed to read tree: " ++ cause
  | .json cause => "invalid JSON: " ++ cause.message
  | .notANode => "top-level value is neither a syntax node nor a flat node table"
  | .missingRoot => "flat node table has no File or Program entry"

namespace Draft

mutual

/-- The place of a draft when `next` is the first free one, and the nodes that it adds to the
arena. -/
def place (next : Nat) : Draft → Option NodeId × List Node
  | .gap _ => (none, [])
  | .reference _ => (none, [])
  | .node form children =>
    let below := placeAll (next + 1) children
    (some next, .ofEntries form below.1 :: below.2)

def placeAll (next : Nat) : List (Role × Draft) → List (Role × Option NodeId) × List Node
  | [] => ([], [])
  | (r, d) :: rest =>
    let first := place next d
    let others := placeAll (next + first.2.length) rest
    ((r, first.1) :: others.1, first.2 ++ others.2)

end

/-- The tree of a draft. The root comes first in the arena. -/
def toTree (d : Draft) : Tree := Tree.ofNodes (d.place 0).2.toArray 0

end Draft

namespace Document

/-- The draft of the root of a document. -/
def draft : Json → Except LoadError Draft
  | .object ms =>
    match Json.Members.get? ms "type" with
    | some _ =>
      match (Draft.ofJson (.object ms)).withoutReferences with
      | .node form children => .ok (.node form children)
      | _ => .error .notANode
    | none =>
      if ms.isEmpty then .error .notANode
      else match NodeTable.ofMembers? ms with
        | none => .error .notANode
        | some table =>
          match table.root? with
          | none => .error .missingRoot
          | some id => .ok (table.draftFrom id)
  | _ => .error .notANode

/-- The tree of a document. -/
def load (json : Json) : Except LoadError Tree := (draft json).map Draft.toTree

/-- The tree of a document in text form. -/
def loadText (text : String) : Except LoadError Tree :=
  match Json.parse text with
  | .ok json => load json
  | .error cause => .error (.json cause)

/-- The tree of the document in a file. -/
def loadFile (files : Files) (name : String) : Except LoadError Tree :=
  match files name with
  | .ok text => loadText text
  | .error e => .error (.unreadable e.message)

/-- The reports on the loading of a document. -/
def notices (json : Json) : List Notice :=
  match draft json with
  | .ok d => d.notices
  | .error _ => if (json.get? "type").isSome then (Draft.ofJson json).notices else []

/-- The reports on the loading of a document in text form. -/
def noticesText (text : String) : List Notice :=
  match Json.parse? text with
  | some json => notices json
  | none => []

end Document

end SyntaxLens

import SyntaxLens.Document.Draft
import SyntaxLens.Number.Decimal

/-! # References between drafts

In a flat document the nodes stand in a table and name their children by id. Following the
references from one entry gives back a draft without references.

* A node is taken by the first reference that reaches it; a later one finds its place empty, which
  also cuts every cycle.
* `Draft.settle` follows the references of a draft. It is given a way to look up one id and passes
  along the ids that are taken.
* `NodeTable.follow` looks up an id and settles the entry in turn. Each look-up that succeeds takes
  one more entry, so the number of entries bounds how deep look-ups nest. -/

namespace SyntaxLens

namespace Draft

/-- The ids whose entries are taken. -/
abbrev Taken := List Nat

mutual

/-- The draft with every reference replaced by what `follow` finds, and the ids taken then. -/
def settle (follow : Nat → Taken → Draft × Taken) : Draft → Taken → Draft × Taken
  | .gap cause, taken => (.gap cause, taken)
  | .reference id, taken => follow id taken
  | .node form children, taken =>
    let settled := settleAll follow children taken
    (.node form settled.1, settled.2)

def settleAll (follow : Nat → Taken → Draft × Taken) :
    List (Role × Draft) → Taken → List (Role × Draft) × Taken
  | [], taken => ([], taken)
  | (r, d) :: rest, taken =>
    let first := settle follow d taken
    let others := settleAll follow rest first.2
    ((r, first.1) :: others.1, others.2)

end

/-- The draft with its references left empty, as in a document without a table. -/
def withoutReferences (d : Draft) : Draft :=
  (d.settle (fun _ taken => (.gap .missing, taken)) []).1

/-- The kind of a node. -/
def kind? : Draft → Option Kind
  | .node form _ => form.kind?
  | _ => none

end Draft

/-- Drafts of nodes by id, each id once. -/
abbrev NodeTable := List (Nat × Draft)

namespace NodeTable

/-- Enters a node. An entry of the same id gives way. -/
def put (table : NodeTable) (id : Nat) (d : Draft) : NodeTable :=
  (id, d) :: table.filter fun entry => entry.1 != id

/-- The table in the members of an object, which come in the order of their keys. Every key has to
be an id; of keys for one id the last counts. -/
def ofMembers? (ms : Json.Members) : Option NodeTable :=
  ms.foldl (fun table? m => do
    let table ← table?
    let id ← Decimal.readNat64? m.1.toList
    return table.put id (Draft.ofJson m.2)) (some [])

/-- The lowest id of the entries of a kind. -/
def lowest? (table : NodeTable) (kind : Kind) : Option Nat :=
  ((table.filter fun entry => entry.2.kind? = some kind).map Prod.fst).min?

/-- The entry to start from: a file if there is one, else a program. -/
def root? (table : NodeTable) : Option Nat :=
  (table.lowest? .file).or (table.lowest? .program)

/-- What a reference to an id stands for, and the ids taken then; look-ups nest at most `depth`
deep. -/
def follow (table : NodeTable) (depth : Nat) (id : Nat) (taken : Draft.Taken) :
    Draft × Draft.Taken :=
  match table.lookup id with
  | none => (.gap (.dangling id), taken)
  | some entry =>
    if taken.contains id then (.gap (.repeated id), taken)
    else match depth with
      | 0 => (.gap .missing, taken)
      | depth + 1 => entry.settle (follow table depth) (id :: taken)

/-- The draft that begins at an id. -/
def draftFrom (table : NodeTable) (id : Nat) : Draft := (table.follow table.length id []).1

end NodeTable

end SyntaxLens

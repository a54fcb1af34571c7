import SyntaxLens.Number.Double
import SyntaxLens.Settings.Key
import SyntaxLens.Text.Lowercase

/-! # Setting values

The values that settings are given, in files or one by one, before they are read as what a setting
has to be.

* Names in tables compare without case: `Name.fold` is the form in which a name is kept.
* `Value.put` puts a value under a name. A table is put name by name into the table that is there,
  so that what it does not mention stays; any other value takes the place of what was there.
* `Value.putAt` puts a value at the end of a key.
* A value knows the file that it comes from, its `origin`, as long as it is kept as a whole. -/

namespace SyntaxLens

/-- The form in which names are compared. -/
def Name.fold (name : String) : String := Text.lowercase name

/-- A single value. -/
inductive Atom where
  | bool (b : Bool)
  | integer (n : Int)
  | real (x : Double)
  | text (s : String)
deriving DecidableEq, Repr

/-- A value that a setting is given. -/
inductive Value where
  | nil
  | atom (a : Atom) (origin : Option String)
  | list (items : List Value) (origin : Option String)
  | table (entries : List (String × Value)) (origin : Option String)
deriving Repr

instance : Inhabited Value := ⟨.nil⟩

namespace Value

mutual

def decEq : (v w : Value) → Decidable (v = w)
  | .nil, .nil => isTrue rfl
  | .atom a origin, .atom b origin' => decidable_of_iff (a = b ∧ origin = origin') (by simp)
  | .list vs origin, .list ws origin' =>
    have := itemsDecEq vs ws
    decidable_of_iff (vs = ws ∧ origin = origin') (by simp)
  | .table es origin, .table fs origin' =>
    have := entriesDecEq es fs
    decidable_of_iff (es = fs ∧ origin = origin') (by simp)
  | .nil, .atom .. | .nil, .list .. | .nil, .table .. | .atom .., .nil | .atom .., .list ..
  | .atom .., .table .. | .list .., .nil | .list .., .atom .. | .list .., .table ..
  | .table .., .nil | .table .., .atom .. | .table .., .list .. => isFalse nofun

def itemsDecEq : (vs ws : List Value) → Decidable (vs = ws)
  | [], [] => isTrue rfl
  | v :: vs, w :: ws =>
    have := decEq v w
    have := itemsDecEq vs ws
    decidable_of_iff (v = w ∧ vs = ws) (by simp)
  | [], _ :: _ | _ :: _, [] => isFalse nofun

def entriesDecEq : (es fs : List (String × Value)) → Decidable (es = fs)
  | [], [] => isTrue rfl
  | (n, v) :: es, (m, w) :: fs =>
    have := decEq v w
    have := entriesDecEq es fs
    decidable_of_iff (n = m ∧ v = w ∧ es = fs) (by simp [and_assoc])
  | [], _ :: _ | _ :: _, [] => isFalse nofun

end

instance : DecidableEq Value := decEq

/-! ### Parts -/

/-- The entries of a table, in the order in which they came. -/
abbrev Entries := List (String × Value)

/-- Sets the entry of a name. -/
def Entries.set (name : String) (v : Value) : Entries → Entries
  | [] => [(name, v)]
  | (n, w) :: rest => if n = name then (n, v) :: rest else (n, w) :: Entries.set name v rest

/-- The entries of a table. Any other value counts as an empty one. -/
def entries : Value → Entries
  | .table es _ => es
  | _ => []

/-- The elements of a list. Any other value counts as an empty one. -/
def items : Value → List Value
  | .list vs _ => vs
  | _ => []

def empty : Value := .table [] none

/-- The value under a name of a table. -/
def get? (v : Value) (name : String) : Option Value := v.entries.lookup name

/-! ### Origins -/

/-- The file that a value comes from. -/
def origin : Value → Option String
  | .nil => none
  | .atom _ origin | .list _ origin | .table _ origin => origin

/-- The file that a list comes from, if a value is one. -/
def listOrigin : Value → Option String
  | .list _ origin => origin
  | _ => none

/-- The file that a table comes from, if a value is one. -/
def tableOrigin : Value → Option String
  | .table _ origin => origin
  | _ => none

mutual

/-- A value as it comes from a file. -/
def ofFile (file : String) : Value → Value
  | .nil => .nil
  | .atom a _ => .atom a (some file)
  | .list vs _ => .list (itemsOfFile file vs) (some file)
  | .table es _ => .table (entriesOfFile file es) (some file)

def itemsOfFile (file : String) : List Value → List Value
  | [] => []
  | v :: rest => ofFile file v :: itemsOfFile file rest

def entriesOfFile (file : String) : List (String × Value) → List (String × Value)
  | [] => []
  | (name, v) :: rest => (name, ofFile file v) :: entriesOfFile file rest

end

/-! ### Putting values -/

/-- The table with a value under a name. -/
def set (target : Value) (name : String) (v : Value) : Value :=
  .table (Entries.set name v target.entries) target.tableOrigin

mutual

/-- Puts a value under a name of a table. -/
def put (target : Value) (name : String) : Value → Value
  | .table es _ =>
    let name := Name.fold name
    target.set name (putAll ((target.get? name).getD empty) es)
  | v => target.set (Name.fold name) v

/-- Puts entries into a table, one after the other. -/
def putAll (target : Value) : List (String × Value) → Value
  | [] => target
  | (name, v) :: rest => putAll (put target name v) rest

end

/-- The place that an index means in a list of some length. A negative one counts from the end. -/
def placeOf? (i : Int) (length : Nat) : Option Nat :=
  if 0 ≤ i then some i.toNat
  else if i.natAbs ≤ length then some (length - i.natAbs)
  else none

/-- The list with the element of an index changed. A list that is too short is filled up. -/
def modify (target : Value) (i : Int) (change : Value → Value) : Value :=
  let vs := target.items
  let vs := match placeOf? i vs.length with
    | some n => (vs ++ List.replicate (n + 1 - vs.length) Value.nil).modify n change
    | none => vs
  .list vs target.listOrigin

/-- Puts a value at the end of a key. What is no table or no list on the way gives place to one. -/
def putAt (target : Value) : Settings.Key → Value → Value
  | [], _ => target
  | [.name name], v => target.put name v
  | .name name :: rest, v =>
    let name := Name.fold name
    target.set name (putAt ((target.get? name).getD .nil) rest v)
  | [.index i], v => target.modify i fun _ => v
  | .index i :: rest, v => target.modify i fun w => putAt w rest v

end Value

end SyntaxLens

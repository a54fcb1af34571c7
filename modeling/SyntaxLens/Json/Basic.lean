import SyntaxLens.Number.Double

/-! # JSON values

The values that documents, fragments and requests are written in. The members of an object are
kept as a list of pairs; `Json.insert` keeps that list sorted by key with one member a key, which
is the form in which the parser delivers objects.

* `Json.get?` is look-up by key; `get?_insert_self` says that an inserted member is found. -/

namespace SyntaxLens

/-- A JSON number: natural numbers below `2 ^ 64`, negative integers down to `-2 ^ 63` (`negative n`
is `-n`), and everything else as a double. -/
inductive Json.Number where
  | natural (n : Nat)
  | negative (n : Nat)
  | real (x : Double)
deriving DecidableEq, Repr

/-- The double that a number is nearest to. -/
def Json.Number.toDouble : Json.Number → Double
  | .natural n => Double.ofNat n
  | .negative n => (Double.ofNat n).neg
  | .real x => x

inductive Json where
  | null
  | bool (b : Bool)
  | number (n : Json.Number)
  | string (s : String)
  | array (items : List Json)
  | object (members : List (String × Json))
deriving Inhabited, Repr

namespace Json

/-- Members of an object, as pairs of key and value. -/
abbrev Members := List (String × Json)

/-- The value of a key; the first if the key is repeated. -/
def Members.get? (ms : Members) (key : String) : Option Json := ms.lookup key

/-- Adds a member at its place in the order of keys. A member of the same key is replaced. -/
def Members.insert (key : String) (value : Json) : Members → Members
  | [] => [(key, value)]
  | (k, v) :: rest =>
    if key < k then (key, value) :: (k, v) :: rest
    else if key = k then (key, value) :: rest
    else (k, v) :: Members.insert key value rest

theorem Members.get?_insert_self (key : String) (value : Json) (ms : Members) :
    (Members.insert key value ms).get? key = some value := by
  induction ms with
  | nil => simp [Members.insert, Members.get?]
  | cons m rest ih =>
    obtain ⟨k, v⟩ := m
    unfold Members.insert
    split
    · simp [Members.get?]
    · split
      · simp [Members.get?]
      · rename_i h
        have hk : (key == k) = false := by simpa using h
        rw [Members.get?, List.lookup_cons, hk]
        exact ih

/-- The value of a key of an object, and nothing for other values. -/
def get? (json : Json) (key : String) : Option Json :=
  match json with
  | .object ms => Members.get? ms key
  | _ => none

def string? : Json → Option String
  | .string s => some s
  | _ => none

def bool? : Json → Option Bool
  | .bool b => some b
  | _ => none

/-- A natural number; numbers written with a sign, a point or an exponent are none. -/
def nat? : Json → Option Nat
  | .number (.natural n) => some n
  | _ => none

def double? : Json → Option Double
  | .number n => some n.toDouble
  | _ => none

def array? : Json → Option (List Json)
  | .array items => some items
  | _ => none

def object? : Json → Option Members
  | .object ms => some ms
  | _ => none

end Json

end SyntaxLens

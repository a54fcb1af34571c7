import SyntaxLens.Number.Decimal
import SyntaxLens.Number.Positional
import SyntaxLens.Settings.Value
import SyntaxLens.Text.Quoted

/-! # Coercions of setting values

A setting is read from any value that can stand for it: a number from a text with its digits or a
truth value, a truth value from a number or a word for it, a text from whatever prints. Nothing,
lists and tables stand for none of them.

* `Mismatch` says why a value does not do. -/

namespace SyntaxLens

/-- What a value is, less what it is made of. -/
inductive Shape where
  | nil
  | atom (a : Atom)
  | list
  | table
deriving DecidableEq, Repr

def Value.shape : Value → Shape
  | .nil => .nil
  | .atom a _ => .atom a
  | .list .. => .list
  | .table .. => .table

/-- What a setting is to be. -/
inductive SettingType where
  | integer
  | boolean
  | text
deriving DecidableEq, Repr

/-- Why a value does not do for a setting. -/
inductive Mismatch where
  | mistyped (found : Shape) (type : SettingType)
  | negative (n : Int)
  /-- The number has more than sixteen bits. -/
  | tooLarge (n : Nat)
deriving DecidableEq, Repr

/-- What was found, in a message. -/
def Shape.phrase : Shape → String
  | .nil => "unit value"
  | .atom (.bool b) => "boolean \x60" ++ (if b then "true" else "false") ++ "\x60"
  | .atom (.integer n) => "64-bit integer \x60" ++ toString n ++ "\x60"
  | .atom (.real x) => "floating point \x60" ++ x.text ++ "\x60"
  | .atom (.text s) => "string " ++ Text.quoted s
  | .list => "sequence"
  | .table => "map"

def SettingType.phrase : SettingType → String
  | .integer => "an integer"
  | .boolean => "a boolean"
  | .text => "a string"

def Mismatch.message : Mismatch → String
  | .mistyped found type => "invalid type: " ++ found.phrase ++ ", expected " ++ type.phrase
  | .negative n => "invalid type: " ++ (Shape.atom (.integer n)).phrase ++
      ", expected an unsigned 64 bit or less integer"
  | .tooLarge n => "invalid type: 64-bit unsigned integer \x60" ++ toString n ++
      "\x60, expected an unsigned 16 bit integer"

namespace Value

/-- Words for what is so, and for what is not. -/
def word? (s : String) : Option Bool :=
  let word := Text.lowercase s
  if word = "true" ∨ word = "on" ∨ word = "yes" then some true
  else if word = "false" ∨ word = "off" ∨ word = "no" then some false
  else none

def text (v : Value) : Except Mismatch String :=
  match v with
  | .atom (.text s) _ => .ok s
  | .atom (.bool b) _ => .ok (if b then "true" else "false")
  | .atom (.integer n) _ => .ok (toString n)
  | .atom (.real x) _ => .ok x.text
  | _ => .error (.mistyped v.shape .text)

/-- Numbers other than zero are so. A text is refused in lower case. -/
def bool (v : Value) : Except Mismatch Bool :=
  match v with
  | .atom (.bool b) _ => .ok b
  | .atom (.integer n) _ => .ok (n != 0)
  | .atom (.real x) _ => .ok !x.isZero
  | .atom (.text s) _ =>
    if s = "1" then .ok true else if s = "0" then .ok false
    else match word? s with
      | some b => .ok b
      | none => .error (.mistyped (.atom (.text (Text.lowercase s))) .boolean)
  | _ => .error (.mistyped v.shape .boolean)

/-- A natural number of 64 bits. Numbers with a fraction are rounded to one; negative ones without a
fraction are refused. -/
def nat (v : Value) : Except Mismatch Nat :=
  match v with
  | .atom (.bool b) _ => .ok b.toNat
  | .atom (.integer n) _ => if 0 ≤ n then .ok n.toNat else .error (.negative n)
  | .atom (.real x) _ => .ok x.round64
  | .atom (.text s) _ =>
    match word? s with
    | some b => .ok b.toNat
    | none =>
      match Decimal.readNat64? s.toList with
      | some n => .ok n
      | none => .error (.mistyped v.shape .integer)
  | _ => .error (.mistyped v.shape .integer)

/-- A natural number of sixteen bits. -/
def nat16 (v : Value) : Except Mismatch Nat := do
  let n ← v.nat
  if n < Nat.pow 2 16 then return n else throw (.tooLarge n)

end Value

end SyntaxLens

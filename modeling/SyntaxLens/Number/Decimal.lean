/-! # Decimal numerals

Natural numbers of 64 bits as they are written in keys and indices.

* `readNat64?` reads one: an optional plus sign, then decimal digits, leading zeros included, with
  a value below `2 ^ 64`. -/

namespace SyntaxLens.Decimal

/-- The value of decimal digits, most significant first. -/
def value (digits : List Char) : Nat :=
  digits.foldl (fun n c => n * 10 + (c.toNat - '0'.toNat)) 0

/-- Digits without a sign. -/
def readDigits? (cs : List Char) : Option Nat :=
  if !cs.isEmpty && cs.all Char.isDigit then some (value cs) else none

/-- A natural number below `2 ^ 64`. -/
def readNat64? (cs : List Char) : Option Nat :=
  let digits := match cs with
    | '+' :: rest => rest
    | _ => cs
  match readDigits? digits with
  | some n => if n < Nat.pow 2 64 then some n else none
  | none => none

end SyntaxLens.Decimal

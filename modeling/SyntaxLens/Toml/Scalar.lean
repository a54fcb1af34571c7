import SyntaxLens.Number.Double
import SyntaxLens.Toml.Moment
import SyntaxLens.Toml.Quoted

/-! # TOML scalars

The single values of a document: strings, truth values, numbers, and moments.

* Integers have 64 bits and a sign. Underscores may stand between digits; a decimal number has no
  leading zeros.
* A number with a point or an exponent is the double nearest to it. One that is too large is
  refused, except that a negative one becomes infinite.
* What begins with a digit or a sign is a moment if it can be, or else a number with a point or an
  exponent, or else an integer. -/

namespace SyntaxLens.Toml

/-- A single value. -/
inductive Scalar where
  | bool (b : Bool)
  | integer (n : Int)
  | real (x : Double)
  | text (s : String)
  | moment (m : Moment)
deriving DecidableEq, Repr

open Reader

/-! ### Digits -/

/-- The digits that follow those of `acc`, which holds the last one first. An underscore has to have
a digit behind it. -/
def moreDigits (base : Nat) (acc : List Char) : List Char → Except Fault (List Char × List Char)
  | ['_'] => .error ⟨[], true⟩
  | '_' :: c :: rest =>
    if isDigitOf base c then moreDigits base (c :: acc) rest else .error ⟨c :: rest, true⟩
  | c :: rest =>
    if isDigitOf base c then moreDigits base (c :: acc) rest else .ok (acc.reverse, c :: rest)
  | [] => .ok (acc.reverse, [])

/-- Digits without the underscores between them. -/
def digits (base : Nat) : Reader (List Char) := do
  let first ← satisfy (isDigitOf base)
  moreDigits base [first]

/-- The digits of a decimal number. Behind a zero at the front there are no more. -/
def whole : Reader (List Char) := fun cs =>
  match cs with
  | '0' :: rest => .ok (['0'], rest)
  | _ => digits 10 cs

/-- Whether there is a minus. A plus may stand in its place. -/
def sign : Reader Bool := fun cs =>
  match cs with
  | '-' :: rest => .ok (true, rest)
  | '+' :: rest => .ok (false, rest)
  | _ => .ok (false, cs)

/-! ### Numbers -/

def exponent : Reader Int := do
  let _ ← satisfy fun c => c == 'e' || c == 'E'
  let negative ← sign
  let n : Int := Decimal.value (← commit (digits 10))
  return if negative then -n else n

def fraction : Reader (List Char) := do
  let _ ← char '.'
  commit (digits 10)

/-- The places behind the point and the exponent of a number, which has the one, the other or
both. -/
def scaling : Reader (List Char × Int) :=
  orElse (do return ([], ← exponent))
    (do return (← fraction, (← optional exponent).getD 0))

def infinite (negative : Bool) : Double :=
  if negative then Double.infinity.neg else Double.infinity

/-- A number with a point or an exponent, infinity, or what is no number. -/
def real : Reader Double := do
  let start ← get
  let negative ← sign
  match ← optional (do return (← whole, ← scaling)) with
  | some (integral, fraction, exponent) =>
    let x := Double.nearest (Decimal.value (integral ++ fraction)) (exponent - fraction.length)
    if negative then return x.neg
    else if x = Double.infinity then failAt start
    else return x
  | none =>
    orElse (do word ['i', 'n', 'f']; return infinite negative)
      (do word ['n', 'a', 'n']; return ⟨0x7ff8000000000000⟩)

/-- The integer of a sign and a size, which has to fit 64 bits. -/
def integerOf (start : List Char) (negative : Bool) (n : Nat) : Reader Int :=
  if n < Nat.pow 2 63 ∨ (negative ∧ n = Nat.pow 2 63) then
    return if negative then -n else n
  else failAt start

def integer : Reader Int := do
  let start ← get
  let based (base : Nat) (rest : List Char) : Reader Int := do
    set rest
    integerOf start false (digitsValue base (← commit (digits base)))
  match start with
  | '0' :: 'x' :: rest => based 16 rest
  | '0' :: 'o' :: rest => based 8 rest
  | '0' :: 'b' :: rest => based 2 rest
  | _ =>
    let negative ← sign
    integerOf start negative (Decimal.value (← whole))

/-! ### Values -/

/-- A moment or a number. -/
def numeral : Reader Scalar :=
  orElse (Scalar.moment <$> Moment.read)
    (orElse (Scalar.real <$> real) (Scalar.integer <$> integer))

/-- A single value. The first character says what kind it is. -/
def scalar : Reader Scalar := fun cs =>
  match cs with
  | '"' :: _ | '\'' :: _ => (Scalar.text <$> quoted) cs
  | 't' :: _ => (do commit (word ['t', 'r', 'u', 'e']); return .bool true : Reader Scalar) cs
  | 'f' :: _ => (do commit (word ['f', 'a', 'l', 's', 'e']); return .bool false : Reader Scalar) cs
  | c :: _ =>
    if c.isDigit ∨ c = '+' ∨ c = '-' then numeral cs
    else if c = 'i' ∨ c = 'n' then (Scalar.real <$> real) cs
    else .error ⟨cs, false⟩
  | [] => .error ⟨[], false⟩

end SyntaxLens.Toml

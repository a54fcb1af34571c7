/-! # Double-precision numbers

A number of a document is a binary floating-point number of 64 bits. It is kept as its bit
pattern, so that equality is decidable and the two zeros stay apart.

* `Double.magnitude` reads the pattern: not a number, infinite, or `m * 2 ^ q` with natural `m`.
* `Double.ofScaled` is the number that a significand and a power of ten stand for, by one
  multiplication or division of doubles; `none` if that is not finite.
* `Double.nearest` is the double nearest to such a number, infinite if it is too large.
* `Double.round64` is the nearest natural number of 64 bits. -/

namespace SyntaxLens

/-- A double-precision number, as its bit pattern. -/
structure Double where
  bits : UInt64
deriving DecidableEq, Repr

namespace Double

/-- Size of a number without its sign: `finite m q` is `m * 2 ^ q`. -/
inductive Magnitude where
  | nan
  | infinite
  | finite (m : Nat) (q : Int)
deriving DecidableEq, Repr

def ofFloat (x : Float) : Double := ⟨x.toBits⟩

def toFloat (d : Double) : Float := Float.ofBits d.bits

/-- The number zero with a positive sign. -/
def zero : Double := ⟨0⟩

/-- The double nearest to a natural number below `2 ^ 64`. -/
def ofNat (n : Nat) : Double := ofFloat (UInt64.ofNat n).toFloat

/-- Changes the sign, also of zero. -/
def neg (d : Double) : Double := ⟨d.bits ^^^ 0x8000000000000000⟩

def isNegative (d : Double) : Bool := d.bits >>> 63 == 1

def magnitude (d : Double) : Magnitude :=
  let fraction : Nat := d.bits.toNat % Nat.pow 2 52
  let exponent : Nat := d.bits.toNat / Nat.pow 2 52 % Nat.pow 2 11
  if exponent = 2047 then (if fraction = 0 then .infinite else .nan)
  else if exponent = 0 then .finite fraction (-1074)
  else .finite (Nat.pow 2 52 + fraction) ((exponent : Int) - 1075)

/-- Scales `x` by `10 ^ exponent`. A factor above `10 ^ 308` is out of range; a divisor above it
is split, and the quotient has vanished before the `steps` run out. -/
def scale : Nat → Float → Int → Option Float
  | 0, x, _ => some x
  | steps + 1, x, exponent =>
    let power := exponent.natAbs
    if power ≤ 308 then
      let unit := Float.ofScientific 1 false power
      if 0 ≤ exponent then
        let y := x * unit
        if y.isInf then none else some y
      else some (x / unit)
    else if x == 0.0 then some x
    else if 0 ≤ exponent then none
    else scale steps (x / Float.ofScientific 1 false 308) (exponent + 308)

/-- The number `significand * 10 ^ exponent`, unless it is too large. The significand is below
`2 ^ 64`. -/
def ofScaled (significand : Nat) (exponent : Int) : Option Double :=
  (scale 4 (UInt64.ofNat significand).toFloat exponent).map ofFloat

/-- Positive infinity. -/
def infinity : Double := ⟨0x7ff0000000000000⟩

/-- The double nearest to `significand * 10 ^ exponent`. Above `10 ^ 310` it is infinite, and below
`10 ^ (-400)` it is zero. -/
def nearest (significand : Nat) (exponent : Int) : Double :=
  let size := (Nat.toDigits 10 significand).length + exponent
  if significand = 0 ∨ size < -400 then zero
  else if 310 < size then infinity
  else ofFloat (Float.ofScientific significand (exponent < 0) exponent.natAbs)

/-- The quotient of a number by `2 ^ places`, to the nearest; a half goes up. -/
def halfUp (n places : Nat) : Nat := (2 * n + Nat.pow 2 places) / Nat.pow 2 (places + 1)

/-- The nearest natural number below `2 ^ 64`, a half going up. -/
def round64 (d : Double) : Nat :=
  let largest := Nat.pow 2 64 - 1
  match d.magnitude with
  | .nan => 0
  | .infinite => if d.isNegative then 0 else largest
  | .finite m q =>
    if d.isNegative then 0
    else if 64 < q then (if m = 0 then 0 else largest)
    else min largest (if 0 ≤ q then m * Nat.pow 2 q.toNat else halfUp m (-q).toNat)

/-- Whether a number is one of the two zeros. -/
def isZero (d : Double) : Bool := d.bits &&& 0x7fffffffffffffff == 0

end Double

end SyntaxLens

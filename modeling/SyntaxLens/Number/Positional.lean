import SyntaxLens.Number.Double

/-! # Positional decimal text of doubles

A double is written with the fewest significant digits that read back as the same double; of two
such decimals the nearer is written, and of two equally near ones the larger. The notation is
positional at every size: zeros fill the places up to the point, an integral value has no point.

The real numbers that round to `m * 2 ^ q` form an interval around it. `Grid` compares the
multiples of one power of ten with that interval in natural numbers; `shortest` takes the coarsest
grid with a point inside. -/

namespace SyntaxLens

namespace Double

/-- The multiples of `10 ^ k` against `m * 2 ^ q`, both multiplied up until all are natural. -/
structure Grid where
  m : Nat
  q : Int
  k : Int

namespace Grid

variable (g : Grid)

/-- The point `c * 10 ^ k`, on the common scale. -/
def point (c : Nat) : Nat := c * Nat.pow 10 g.k.toNat * Nat.pow 2 (2 - g.q).toNat

/-- The number `x / 4 * 2 ^ q`, on the common scale. -/
def quarters (x : Nat) : Nat := x * Nat.pow 10 (-g.k).toNat * Nat.pow 2 (g.q - 2).toNat

/-- The lower end of the interval, in quarters: the gap below a power of two is half as wide,
except at the smallest exponent. -/
def low : Nat := 4 * g.m - (if g.m = Nat.pow 2 52 ∧ -1074 < g.q then 1 else 2)

/-- The upper end of the interval, in quarters. -/
def high : Nat := 4 * g.m + 2

/-- Whether `c * 10 ^ k` reads back as `m * 2 ^ q`: the ends belong to the interval if `m` is
even. -/
def holds (c : Nat) : Bool :=
  if g.m % 2 = 0 then
    g.quarters g.low ≤ g.point c && g.point c ≤ g.quarters g.high
  else
    g.quarters g.low < g.point c && g.point c < g.quarters g.high

/-- The grid point that stands for the number, if one of its two neighbours reads back. -/
def nearest? : Option Nat :=
  let value := g.quarters (4 * g.m)
  let c := value / g.point 1
  let below := 0 < c && g.holds c
  let above := g.holds (c + 1)
  if below && above then
    some (if value - g.point c < g.point (c + 1) - value then c else c + 1)
  else if below then some c
  else if above then some (c + 1)
  else none

end Grid

/-- The first grid with a hit, going down from `10 ^ k`: the hit and its power of ten. -/
def shortestFrom (m : Nat) (q : Int) : Nat → Int → Nat × Int
  | 0, k => (0, k)
  | steps + 1, k =>
    match (Grid.mk m q k).nearest? with
    | some c => (c, k)
    | none => shortestFrom m q steps (k - 1)

/-- Fewest digits of `m * 2 ^ q`: the pair `(c, k)` stands for `c * 10 ^ k`. No double needs a
grid finer than `10 ^ (-400)`. -/
def shortest (m : Nat) (q : Int) : Nat × Int :=
  let integral := (Grid.mk m q 0).quarters (4 * m) / (Grid.mk m q 0).point 1
  let places := (Nat.toDigits 10 integral).length
  shortestFrom m q (places + 400) places

/-- The decimal `c * 10 ^ k` in positional notation. -/
def positional (c : Nat) (k : Int) : List Char :=
  let digits := Nat.toDigits 10 c
  if 0 ≤ k then digits ++ List.replicate k.toNat '0'
  else
    let places := (-k).toNat
    let padded := List.replicate (places + 1 - digits.length) '0' ++ digits
    padded.take (padded.length - places) ++ '.' :: padded.drop (padded.length - places)

/-- The text of a number. -/
def text (d : Double) : String :=
  let sign := if d.isNegative then ['-'] else []
  match d.magnitude with
  | .nan => "NaN"
  | .infinite => String.ofList (sign ++ ['i', 'n', 'f'])
  | .finite 0 _ => String.ofList (sign ++ ['0'])
  | .finite m q =>
    let (c, k) := shortest m q
    String.ofList (sign ++ positional c k)

end Double

end SyntaxLens

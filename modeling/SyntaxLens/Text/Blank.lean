/-! # Blank characters

The characters with the Unicode property `White_Space`, and trimming by them.

* `isBlank` decides the property; every blank of the ASCII class `Char.isWhitespace` is one
  (`isBlank_of_isWhitespace`).
* `trim` drops the blanks at both ends of a text. -/

namespace SyntaxLens.Text

/-- The property `White_Space`. -/
def isBlank (c : Char) : Bool :=
  let n := c.toNat
  (0x09 ≤ n && n ≤ 0x0d) || n == 0x20 || n == 0x85 || n == 0xa0 || n == 0x1680 ||
  (0x2000 ≤ n && n ≤ 0x200a) || n == 0x2028 || n == 0x2029 || n == 0x202f || n == 0x205f ||
  n == 0x3000

theorem isBlank_of_isWhitespace {c : Char} (h : c.isWhitespace = true) : isBlank c = true := by
  simp only [Char.isWhitespace, Bool.or_eq_true, decide_eq_true_eq] at h
  rcases h with ((rfl | rfl) | rfl) | rfl <;> decide

/-- Drops the blanks at the end. -/
def trimRight (cs : List Char) : List Char := (cs.reverse.dropWhile isBlank).reverse

/-- Drops the blanks at both ends. -/
def trim (cs : List Char) : List Char := trimRight (cs.dropWhile isBlank)

/-- A text in which nothing but blanks stands. -/
def isAllBlank (cs : List Char) : Bool := cs.all isBlank

end SyntaxLens.Text

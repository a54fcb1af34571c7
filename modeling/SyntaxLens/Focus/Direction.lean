import SyntaxLens.Text.Blank

/-! # Directions

The four ways in which the focus moves, and the words and letters for them. -/

namespace SyntaxLens

/-- A way to move the focus: to the parent, into a child, and along a list. -/
inductive Direction where
  | up | down | next | prev
deriving DecidableEq, Repr

/-- A word, in lower case, that names no direction. -/
structure DirectionError where
  word : String
deriving DecidableEq, Repr

def DirectionError.message (e : DirectionError) : String :=
  "unknown direction '" ++ e.word ++ "' (expected up, down, next or prev)"

namespace Direction

def word : Direction → String
  | .up => "up"
  | .down => "down"
  | .next => "next"
  | .prev => "prev"

/-- Reads a direction: its word or its letter in either case, blanks around it aside. -/
def parse (raw : String) : Except DirectionError Direction :=
  let word := String.ofList ((Text.trim raw.toList).map Char.toLower)
  if word = "up" ∨ word = "h" then .ok .up
  else if word = "down" ∨ word = "l" then .ok .down
  else if word = "next" ∨ word = "j" then .ok .next
  else if word = "prev" ∨ word = "k" then .ok .prev
  else .error ⟨word⟩

end Direction

end SyntaxLens

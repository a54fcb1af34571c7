/-! # Pieces of a text

* `pieces` cuts a text at every occurrence of a separator; there is one more piece than there are
  separators (`length_pieces`), and no piece holds one.
* `lines` cuts a text at its line ends, which are newlines with or without a carriage return. -/

namespace SyntaxLens.Text

/-- The pieces between the separators of a text. -/
def pieces (separator : Char) : List Char → List (List Char)
  | [] => [[]]
  | c :: cs =>
    if c = separator then [] :: pieces separator cs
    else match pieces separator cs with
      | [] => [[c]]
      | first :: rest => (c :: first) :: rest

/-- A line without the carriage return at its end. -/
def dropReturn (line : List Char) : List Char :=
  match line.reverse with
  | '\r' :: rest => rest.reverse
  | _ => line

/-- The lines of a text. -/
def lines (cs : List Char) : List (List Char) :=
  let cut := pieces '\n' cs
  cut.dropLast.map dropReturn ++ cut.getLast?.toList

theorem length_pieces (separator : Char) (cs : List Char) :
    (pieces separator cs).length = cs.count separator + 1 := by
  induction cs with
  | nil => rfl
  | cons c cs ih =>
    by_cases h : c = separator
    · simp [pieces, h, ih]
    · cases hp : pieces separator cs with
      | nil => simp [hp] at ih
      | cons first rest =>
        rw [hp] at ih
        simpa [pieces, h, hp, List.count_cons] using ih

end SyntaxLens.Text

import SyntaxLens.Text.Printable

/-! # Quoted texts

The form in which a text is shown as a value: between double quotes, with the quote, the
backslash and every character that would not be seen written as an escape.

* `escape` is the written form of one character: a short escape for the six characters that have
  one, itself if it is visible, and otherwise its code point in hexadecimal.
* `quoted` puts the escapes of a text between quotes. -/

namespace SyntaxLens.Text

/-- The hexadecimal digits of a number, lower case and without leading zeros. -/
def hex (n : Nat) : List Char := Nat.toDigits 16 n

/-- The written form of one character of a quoted text. -/
def escape (c : Char) : List Char :=
  match c with
  | '\x00' => ['\\', '0']
  | '\t' => ['\\', 't']
  | '\r' => ['\\', 'r']
  | '\n' => ['\\', 'n']
  | '\\' => ['\\', '\\']
  | '"' => ['\\', '"']
  | _ => if isVisible c then [c] else ['\\', 'u', '\x7b'] ++ hex c.toNat ++ ['\x7d']

/-- A text between double quotes. -/
def quoted (s : String) : String :=
  String.ofList ('"' :: s.toList.flatMap escape ++ ['"'])

end SyntaxLens.Text

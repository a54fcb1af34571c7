import SyntaxLens.Json.Basic
import SyntaxLens.Number.Positional

/-! # Writing JSON

Two layouts of one value: `Json.compress` without any space, and `Json.pretty` with two spaces of
indent a level and one member or element a line. Members are written in the order of the list. -/

namespace SyntaxLens.Json

/-- The written form of one character of a string. Controls without a short escape are written as
four hexadecimal digits; all other characters as they are. -/
def escape (c : Char) : List Char :=
  match c with
  | '"' => ['\\', '"']
  | '\\' => ['\\', '\\']
  | '\x08' => ['\\', 'b']
  | '\x0c' => ['\\', 'f']
  | '\n' => ['\\', 'n']
  | '\r' => ['\\', 'r']
  | '\t' => ['\\', 't']
  | _ =>
    if c.toNat < 0x20 then
      ['\\', 'u', '0', '0', Nat.digitChar (c.toNat / 16), Nat.digitChar (c.toNat % 16)]
    else [c]

def writeString (s : String) : String := String.ofList ('"' :: s.toList.flatMap escape ++ ['"'])

def writeNumber : Number → String
  | .natural n => toString n
  | .negative n => "-" ++ toString n
  | .real x => x.text

mutual

/-- The value without spaces. -/
def compress : Json → String
  | .null => "null"
  | .bool b => if b then "true" else "false"
  | .number n => writeNumber n
  | .string s => writeString s
  | .array items => "[" ++ compressItems items ++ "]"
  | .object ms => "\x7b" ++ compressMembers ms ++ "\x7d"

def compressItems : List Json → String
  | [] => ""
  | [item] => compress item
  | item :: rest => compress item ++ "," ++ compressItems rest

def compressMembers : List (String × Json) → String
  | [] => ""
  | [(key, item)] => writeString key ++ ":" ++ compress item
  | (key, item) :: rest => writeString key ++ ":" ++ compress item ++ "," ++ compressMembers rest

end

/-- A line break and the indent of a level. -/
def newline (level : Nat) : String := "\n" ++ String.ofList (List.replicate (2 * level) ' ')

mutual

/-- The value over several lines, begun at the given level. -/
def prettyAt (level : Nat) : Json → String
  | .array [] => "[]"
  | .array items => "[" ++ prettyItems (level + 1) items ++ newline level ++ "]"
  | .object [] => "\x7b\x7d"
  | .object ms => "\x7b" ++ prettyMembers (level + 1) ms ++ newline level ++ "\x7d"
  | .null => "null"
  | .bool b => if b then "true" else "false"
  | .number n => writeNumber n
  | .string s => writeString s

def prettyItems (level : Nat) : List Json → String
  | [] => ""
  | [item] => newline level ++ prettyAt level item
  | item :: rest => newline level ++ prettyAt level item ++ "," ++ prettyItems level rest

def prettyMembers (level : Nat) : List (String × Json) → String
  | [] => ""
  | [(key, item)] => newline level ++ writeString key ++ ": " ++ prettyAt level item
  | (key, item) :: rest =>
    newline level ++ writeString key ++ ": " ++ prettyAt level item ++ "," ++
      prettyMembers level rest

end

/-- The value over several lines. -/
def pretty (json : Json) : String := prettyAt 0 json

end SyntaxLens.Json

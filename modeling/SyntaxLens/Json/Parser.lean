import SyntaxLens.Json.Basic
import SyntaxLens.Json.ParseError

/-! # Reading JSON

`Json.parse` reads a whole text as one value, or says what is wrong with it first.

* Values may be nested up to `maxDepth` deep.
* Strings hold no bare control characters, and escapes for surrogates come in pairs.
* A number without point and exponent that fits 64 bits stays an integer. Any other is a double;
  one whose size is out of range is refused. Significant digits are collected as long as they fit
  64 bits; the digits of the integral part behind them count as zeros, those of the fraction are
  ignored. -/

namespace SyntaxLens.Json

namespace Parser

/-- What is wrong, with the text that is left there, and how many bytes of that were looked at. -/
structure Failure where
  cause : Cause
  rest : List Char
  ahead : Nat

/-- A reader takes what it needs from the front of the text and gives back the rest. -/
abbrev Read (α : Type) := Except Failure (α × List Char)

/-- Fails at the next byte, or at the end of the text with another cause. -/
def unexpected {α : Type} (atEnd cause : Cause) (rest : List Char) : Read α :=
  match rest with
  | [] => .error ⟨atEnd, [], 0⟩
  | _ => .error ⟨cause, rest, 1⟩

def isSpace (c : Char) : Bool := c == ' ' || c == '\n' || c == '\t' || c == '\r'

def skipSpace (cs : List Char) : List Char := cs.dropWhile isSpace

/-- Arrays and objects may be nested this deep. -/
def maxDepth : Nat := 127

/-! ### Numbers -/

def digitValue (c : Char) : Nat := c.toNat - '0'.toNat

/-- Appends decimal digits to a significand as long as it stays below `2 ^ 64`; the digits that
did not fit are given back. -/
def collect (significand : Nat) : List Char → Nat × List Char
  | [] => (significand, [])
  | c :: cs =>
    let next := significand * 10 + digitValue c
    if next < Nat.pow 2 64 then collect next cs else (significand, c :: cs)

/-- The digits at the front of a text, and the rest. -/
def digits (cs : List Char) : List Char × List Char :=
  (cs.takeWhile Char.isDigit, cs.dropWhile Char.isDigit)

/-- The number `±significand * 10 ^ exponent`, with `rest` behind it. -/
def real (negative : Bool) (significand : Nat) (exponent : Int) (rest : List Char) : Read Number :=
  match Double.ofScaled significand exponent with
  | some x => .ok (.real (if negative then x.neg else x), rest)
  | none => .error ⟨.outOfRange, rest, 0⟩

/-- Exponents are read up to this size. -/
def maxExponent : Nat := Nat.pow 2 31 - 1

/-- What is left behind the digit of an exponent that makes it too large, if there is one. -/
def tooLarge? (power : Nat) : List Char → Option (List Char)
  | [] => none
  | c :: cs =>
    let power := power * 10 + digitValue c
    if maxExponent < power then some cs else tooLarge? power cs

/-- The exponent behind `e`, added to the places that the digits already shift by. -/
def exponent (negative : Bool) (significand : Nat) (shift : Int) (cs : List Char) : Read Number :=
  let (down, cs) := match cs with
    | '+' :: rest => (false, rest)
    | '-' :: rest => (true, rest)
    | _ => (false, cs)
  match digits cs with
  | ([], _) => unexpected .endInValue .badNumber cs
  | (ds, rest) =>
    match tooLarge? 0 ds with
    | some others =>
      if significand ≠ 0 ∧ !down then .error ⟨.outOfRange, others ++ rest, 0⟩
      else .ok (.real (if negative then Double.zero.neg else Double.zero), rest)
    | none =>
      let power : Int := ds.foldl (fun n c => n * 10 + digitValue c) 0
      real negative significand (if down then shift - power else shift + power) rest

def exponent? (negative : Bool) (significand : Nat) (shift : Int) (cs : List Char) : Read Number :=
  match cs with
  | 'e' :: rest | 'E' :: rest => exponent negative significand shift rest
  | _ => real negative significand shift cs

/-- The digits behind the point. -/
def fraction (negative : Bool) (significand : Nat) (shift : Int) (cs : List Char) : Read Number :=
  match digits cs with
  | ([], _) => unexpected .endInValue .badNumber cs
  | (ds, rest) =>
    let (significand, left) := collect significand ds
    exponent? negative significand (shift - (ds.length - left.length : Nat)) rest

/-- A number without point and exponent. Zero with a sign is a double, as is a number that is too
small for a signed integer. -/
def integer (negative : Bool) (n : Nat) : Number :=
  if !negative then .natural n
  else if n = 0 || Nat.pow 2 63 < n then .real (Double.ofNat n).neg
  else .negative n

/-- A number, its sign already taken. -/
def unsigned (negative : Bool) (cs : List Char) : Read Number :=
  match digits cs with
  | ([], _) => unexpected .endInValue .badNumber cs
  | ('0' :: d :: ds, rest) => .error ⟨.badNumber, d :: ds ++ rest, 1⟩
  | (ds, rest) =>
    let (significand, left) := collect 0 ds
    match rest with
    | '.' :: rest => fraction negative significand left.length rest
    | 'e' :: _ | 'E' :: _ => exponent? negative significand left.length rest
    | _ =>
      if left.isEmpty then .ok (integer negative significand, rest)
      else real negative significand left.length rest

/-! ### Strings -/

def hexValue? (c : Char) : Option Nat :=
  if c.isDigit then some (digitValue c)
  else if 'a' ≤ c ∧ c ≤ 'f' then some (c.toNat - 'a'.toNat + 10)
  else if 'A' ≤ c ∧ c ≤ 'F' then some (c.toNat - 'A'.toNat + 10)
  else none

def hex4? (a b c d : Char) : Option Nat := do
  return (((← hexValue? a) * 16 + (← hexValue? b)) * 16 + (← hexValue? c)) * 16 + (← hexValue? d)

/-- The character that a backslash and `c` stand for. -/
def shortEscape? (c : Char) : Option Char :=
  match c with
  | '"' | '\\' | '/' => some c
  | 'b' => some '\x08'
  | 'f' => some '\x0c'
  | 'n' => some '\n'
  | 'r' => some '\r'
  | 't' => some '\t'
  | _ => none

def isLeading (n : Nat) : Bool := 0xd800 ≤ n && n ≤ 0xdbff

def isTrailing (n : Nat) : Bool := 0xdc00 ≤ n && n ≤ 0xdfff

/-- The code unit of an escape, behind the `u`. -/
def unit (cs : List Char) : Read Nat :=
  let short := (String.ofList cs).utf8ByteSize < 4
  match cs with
  | a :: b :: c :: d :: rest =>
    match hex4? a b c d with
    | some n => .ok (n, rest)
    | none => .error ⟨.badEscape, cs, 4⟩
  | _ => if short then .error ⟨.endInString, [], 0⟩ else .error ⟨.badEscape, cs, 4⟩

/-- The character of an escape, behind the `u`: one unit, or two that make a pair. -/
def unicode (cs : List Char) : Except Failure (Char × List Char) := do
  let (n, rest) ← unit cs
  if isTrailing n then .error ⟨.loneSurrogate, rest, 0⟩
  else if isLeading n then
    match rest with
    | '\\' :: 'u' :: more =>
      let (low, rest) ← unit more
      if isTrailing low then
        .ok (Char.ofNat (0x10000 + (n - 0xd800) * 0x400 + (low - 0xdc00)), rest)
      else .error ⟨.loneSurrogate, rest, 0⟩
    | '\\' :: more => unexpected .endInString .halfPair more
    | _ => unexpected .endInString .halfPair rest
  else .ok (Char.ofNat n, rest)

/-- The rest of a string behind its opening quote; `acc` holds the characters read, last first, and
`steps` bounds the characters that are left. -/
def stringBody : (steps : Nat) → (acc : List Char) → List Char →
    Except Failure (String × List Char)
  | _, acc, '"' :: rest => .ok (String.ofList acc.reverse, rest)
  | steps + 1, acc, '\\' :: 'u' :: rest => do
    let (c, rest) ← unicode rest
    stringBody steps (c :: acc) rest
  | steps + 1, acc, '\\' :: c :: rest =>
    match shortEscape? c with
    | some x => stringBody steps (x :: acc) rest
    | none => .error ⟨.badEscape, c :: rest, 1⟩
  | steps + 1, acc, c :: rest =>
    if c.toNat < 0x20 then .error ⟨.controlCharacter, c :: rest, 1⟩
    else if c = '\\' then .error ⟨.endInString, [], 0⟩
    else stringBody steps (c :: acc) rest
  | _, _, _ => .error ⟨.endInString, [], 0⟩

/-- A string behind its opening quote. -/
def string (cs : List Char) : Read String := stringBody cs.length [] cs

/-! ### Values -/

/-- The letters of a word, with the rest behind them. -/
def letters (json : Json) : List Char → List Char → Read Json
  | [], cs => .ok (json, cs)
  | _ :: _, [] => .error ⟨.endInValue, [], 0⟩
  | e :: es, c :: cs => if c = e then letters json es cs else .error ⟨.noWord, c :: cs, 1⟩

mutual

/-- A value at the front of the text; `depth` more levels may be opened, and `steps` bounds the
calls that are left. -/
def value : (steps depth : Nat) → List Char → Read Json
  | 0, _, cs => unexpected .endInValue .noValue cs
  | steps + 1, depth, cs =>
    match skipSpace cs with
    | 'n' :: rest => letters .null ['u', 'l', 'l'] rest
    | 't' :: rest => letters (.bool true) ['r', 'u', 'e'] rest
    | 'f' :: rest => letters (.bool false) ['a', 'l', 's', 'e'] rest
    | '"' :: rest => (string rest).map fun (s, rest) => (.string s, rest)
    | '-' :: rest => (unsigned true rest).map fun (n, rest) => (.number n, rest)
    | '[' :: rest =>
      match depth with
      | 0 => .error ⟨.tooDeep, '[' :: rest, 1⟩
      | depth + 1 =>
        match skipSpace rest with
        | [] => .error ⟨.endInList, [], 0⟩
        | ']' :: rest => .ok (.array [], rest)
        | rest => elements steps depth [] rest
    | '\x7b' :: rest =>
      match depth with
      | 0 => .error ⟨.tooDeep, '\x7b' :: rest, 1⟩
      | depth + 1 =>
        match skipSpace rest with
        | '\x7d' :: rest => .ok (.object [], rest)
        | '"' :: rest => members steps depth [] rest
        | rest => unexpected .endInObject .keyNoString rest
    | c :: rest =>
      if c.isDigit then (unsigned false (c :: rest)).map fun (n, rest) => (.number n, rest)
      else .error ⟨.noValue, c :: rest, 1⟩
    | [] => .error ⟨.endInValue, [], 0⟩

/-- The elements of an array up to its end; `acc` holds those before, last first. -/
def elements : (steps depth : Nat) → List Json → List Char → Except Failure (Json × List Char)
  | 0, _, _, cs => unexpected .endInList .noListEnd cs
  | steps + 1, depth, acc, cs => do
    let (item, rest) ← value steps depth cs
    match skipSpace rest with
    | ',' :: rest =>
      match skipSpace rest with
      | ']' :: rest => .error ⟨.trailingComma, ']' :: rest, 1⟩
      | [] => .error ⟨.endInValue, [], 0⟩
      | rest => elements steps depth (item :: acc) rest
    | ']' :: rest => .ok (.array (item :: acc).reverse, rest)
    | rest => unexpected .endInList .noListEnd rest

/-- The members of an object up to its end, behind the opening quote of the next key; of members
with one key the last counts. -/
def members : (steps depth : Nat) → Members → List Char → Except Failure (Json × List Char)
  | 0, _, _, cs => unexpected .endInObject .noObjectEnd cs
  | steps + 1, depth, acc, cs => do
    let (key, rest) ← string cs
    match skipSpace rest with
    | ':' :: rest => do
      let (item, rest) ← value steps depth rest
      match skipSpace rest with
      | ',' :: rest =>
        match skipSpace rest with
        | '"' :: rest => members steps depth (acc.insert key item) rest
        | '\x7d' :: rest => .error ⟨.trailingComma, '\x7d' :: rest, 1⟩
        | rest => unexpected .endInValue .keyNoString rest
      | '\x7d' :: rest => .ok (.object (acc.insert key item), rest)
      | rest => unexpected .endInObject .noObjectEnd rest
    | rest => unexpected .endInObject .noColon rest

end

/-- A text that holds one value and nothing else. Between two characters of the text at most two
calls are made. -/
def whole (cs : List Char) : Except Failure Json := do
  let (json, rest) ← value (2 * cs.length + 2) maxDepth cs
  match skipSpace rest with
  | [] => .ok json
  | rest => .error ⟨.trailingText, rest, 1⟩

end Parser

/-- Reads a text that holds one value and nothing else. -/
def parse (text : String) : Except ParseError Json :=
  (Parser.whole text.toList).mapError fun f =>
    let left := (String.ofList f.rest).utf8ByteSize
    .after f.cause text (text.utf8ByteSize - left + f.ahead)

/-- The value of a text, if it holds one. -/
def parse? (text : String) : Option Json := (parse text).toOption

end SyntaxLens.Json

import SyntaxLens.Number.Decimal
import SyntaxLens.Number.Double

/-! # YAML scalars

How a text is written in YAML so that it reads back as that text.

* A text with line ends is a literal block, if its blanks allow that.
* A text that would read back as something else (`readsAsOther`) goes between single quotes.
* Any other text stands plain, unless its characters would be taken for structure (`isPlain`); then
  it is quoted, between double quotes if characters have to be escaped. -/

namespace SyntaxLens.Yaml

/-! ### Characters -/

def isBreak (c : Char) : Bool :=
  c == '\n' || c == '\r' || c == '\x85' || c == '\u2028' || c == '\u2029'

/-- Characters that can stand unescaped. -/
def isPrintable (c : Char) : Bool :=
  let n := c.toNat
  n == 0x0a || (0x20 ≤ n && n ≤ 0x7e) || (0xa0 ≤ n && n ≤ 0xd7ff) ||
  (0xe000 ≤ n && n ≤ 0xfffd && n != 0xfeff) || 0x10000 ≤ n

/-- Characters that end a word. -/
def isBlank (c : Char) : Bool := c == ' ' || c == '\t' || c == '\x00' || isBreak c

/-- Whether a blank or the end comes next. -/
def blankNext : List Char → Bool
  | [] => true
  | c :: _ => isBlank c

/-! ### Texts that read as something else -/

/-- Digits of a base, at least one. -/
def value? (base : Nat) (cs : List Char) : Option Nat :=
  if cs.isEmpty then none
  else cs.foldl (fun acc c => do
    let n ← acc
    let d := c.toNat
    let digit ←
      if c.isDigit then some (d - '0'.toNat)
      else if 'a' ≤ c ∧ c ≤ 'f' then some (d - 'a'.toNat + 10)
      else if 'A' ≤ c ∧ c ≤ 'F' then some (d - 'A'.toNat + 10)
      else none
    if digit < base then some (n * base + digit) else none) (some 0)

/-- The magnitude of an integer without its sign, decimal or with the mark of another base. -/
def magnitude? (cs : List Char) : Option Nat :=
  match cs with
  | '0' :: 'x' :: rest => value? 16 rest
  | '0' :: 'o' :: rest => value? 8 rest
  | '0' :: 'b' :: rest => value? 2 rest
  | _ => value? 10 cs

/-- Digits behind a leading zero. -/
def isPadded (cs : List Char) : Bool :=
  let digits := match cs with
    | '-' :: rest | '+' :: rest => rest
    | _ => cs
  match digits with
  | '0' :: d :: rest => (d :: rest).all Char.isDigit
  | _ => false

/-- Integers of 128 bits. -/
def isInteger (cs : List Char) : Bool :=
  !isPadded cs &&
  match cs with
  | '-' :: rest => (magnitude? rest).any (· ≤ Nat.pow 2 127)
  | '+' :: rest => (magnitude? rest).any (· < Nat.pow 2 128)
  | _ => (magnitude? cs).any (· < Nat.pow 2 128)

/-- Whether `n * 10 ^ e` rounds to a finite double. -/
def isFinite (n : Nat) (e : Int) : Bool :=
  let size := (Nat.toDigits 10 n).length + e
  if n = 0 ∨ size < 300 then true
  else if 320 < size then false
  else n * Nat.pow 10 e.toNat < (Nat.pow 2 1024 - Nat.pow 2 970) * Nat.pow 10 (-e).toNat

/-- Decimal floating-point numbers: digits with or without a point among them, and an exponent. -/
def isDecimal (cs : List Char) : Bool :=
  let cs := match cs with
    | '-' :: rest | '+' :: rest => rest
    | _ => cs
  let whole := cs.takeWhile Char.isDigit
  let cs := cs.dropWhile Char.isDigit
  let (fraction, cs) := match cs with
    | '.' :: rest => (rest.takeWhile Char.isDigit, rest.dropWhile Char.isDigit)
    | _ => ([], cs)
  let digits := Decimal.value (whole ++ fraction)
  !(whole.isEmpty && fraction.isEmpty) &&
  match cs with
  | [] => isFinite digits (-fraction.length)
  | e :: rest =>
    let (down, ds) := match rest with
      | '-' :: ds => (true, ds)
      | '+' :: ds => (false, ds)
      | _ => (false, rest)
    (e == 'e' || e == 'E') && !ds.isEmpty && ds.all Char.isDigit &&
      let power : Int := Decimal.value ds
      isFinite digits ((if down then -power else power) - fraction.length)

/-- Floating-point numbers, with at most one sign. -/
def isFloat (s : String) : Bool :=
  [".inf", ".Inf", ".INF", "+.inf", "+.Inf", "+.INF", "-.inf", "-.Inf", "-.INF", ".nan", ".NaN",
    ".NAN"].contains s ||
  match s.toList with
  | '+' :: '+' :: _ | '+' :: '-' :: _ => false
  | '+' :: rest => isDecimal rest
  | cs => isDecimal cs

/-- Texts that would read back as nothing, a truth value or a number. -/
def readsAsOther (s : String) : Bool :=
  ["", "null", "Null", "NULL", "~", "true", "True", "TRUE", "false", "False", "FALSE"].contains s ||
  isPadded s.toList || isInteger s.toList || isFloat s

/-! ### Texts that stand plain -/

/-- First characters that begin something else. -/
def indicators : List Char :=
  ['#', ',', '[', ']', '\x7b', '\x7d', '&', '*', '!', '|', '>', '\'', '"', '%', '@', '\x60']

/-- Whether a colon or a number sign inside a text is taken for structure; `prev` is the character
before. -/
def clashes (prev : Char) : List Char → Bool
  | [] => false
  | c :: rest => (c == ':' && blankNext rest) || (c == '#' && isBlank prev) || clashes c rest

/-- Whether a text can stand without quotes. -/
def isPlain (cs : List Char) : Bool :=
  match cs with
  | [] => false
  | c :: rest =>
    !(cs.take 3 == ['-', '-', '-'] || cs.take 3 == ['.', '.', '.']) &&
    !indicators.contains c &&
    !((c == '?' || c == ':' || c == '-') && blankNext rest) &&
    !clashes c rest &&
    c != ' ' && cs.getLast? != some ' ' &&
    !cs.any isBreak && cs.all isPrintable

/-- Whether a character of one class is followed at once by one of another. -/
def adjacent (first second : Char → Bool) : List Char → Bool
  | c :: d :: rest => (first c && second d) || adjacent first second (d :: rest)
  | _ => false

/-- Whether a text can stand between single quotes. -/
def isQuotable (cs : List Char) : Bool :=
  cs.all isPrintable && !adjacent (· == ' ') isBreak cs && !adjacent isBreak (· == ' ') cs

/-- Whether a text can be a literal block. -/
def isLiteral (cs : List Char) : Bool :=
  cs.all isPrintable && !adjacent (· == ' ') isBreak cs && cs.getLast? != some ' '

/-! ### Writing -/

/-- The characters of a text with the indent in front of each line behind the first; lines are
indented only if something stands on them. -/
def indented (pad : List Char) (fresh : Bool) : List Char → List Char
  | [] => []
  | c :: rest =>
    if isBreak c then c :: indented pad true rest
    else (if fresh then pad else []) ++ c :: indented pad false rest

def singleQuoted (pad : List Char) (cs : List Char) : List Char :=
  let body := indented pad false (cs.flatMap fun c => if c == '\'' then ['\'', '\''] else [c])
  '\'' :: body ++ (if cs.getLast?.any isBreak then pad else []) ++ ['\'']

/-- Hexadecimal digits in upper case, padded with zeros. -/
def hexPadded (width n : Nat) : List Char :=
  let digits := (Nat.toDigits 16 n).map Char.toUpper
  List.replicate (width - digits.length) '0' ++ digits

/-- The written form of a character between double quotes. -/
def escape (c : Char) : List Char :=
  match c with
  | '\x00' => ['\\', '0']
  | '\x07' => ['\\', 'a']
  | '\x08' => ['\\', 'b']
  | '\t' => ['\\', 't']
  | '\n' => ['\\', 'n']
  | '\x0b' => ['\\', 'v']
  | '\x0c' => ['\\', 'f']
  | '\r' => ['\\', 'r']
  | '\x1b' => ['\\', 'e']
  | '"' => ['\\', '"']
  | '\\' => ['\\', '\\']
  | '\x85' => ['\\', 'N']
  | '\u2028' => ['\\', 'L']
  | '\u2029' => ['\\', 'P']
  | _ =>
    if isPrintable c then [c]
    else if c.toNat ≤ 0xff then ['\\', 'x'] ++ hexPadded 2 c.toNat
    else if c.toNat ≤ 0xffff then ['\\', 'u'] ++ hexPadded 4 c.toNat
    else ['\\', 'U'] ++ hexPadded 8 c.toNat

def doubleQuoted (cs : List Char) : List Char := '"' :: cs.flatMap escape ++ ['"']

/-- What stands behind the bar of a literal block: a hint if its indent cannot be seen, and what
becomes of the line ends at its end. -/
def literalHints (cs : List Char) : List Char :=
  let hint := match cs with
    | c :: _ => if c == ' ' || isBreak c then ['2'] else []
    | [] => []
  let chomp := match cs.reverse with
    | last :: before =>
      if !isBreak last then ['-']
      else match before with
        | [] => ['+']
        | c :: _ => if isBreak c then ['+'] else []
    | [] => ['-']
  hint ++ chomp

/-- The written form of a text, further lines behind `pad`. -/
def scalar (pad : List Char) (s : String) : String :=
  let cs := s.toList
  String.ofList <|
    if cs.contains '\n' then
      if isLiteral cs then '|' :: literalHints cs ++ '\n' :: indented pad true cs
      else doubleQuoted cs
    else if !readsAsOther s && isPlain cs then cs
    else if isQuotable cs then singleQuoted pad cs
    else doubleQuoted cs

end SyntaxLens.Yaml

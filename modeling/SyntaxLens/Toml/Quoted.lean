import SyntaxLens.Toml.Reader

/-! # TOML strings

Strings stand between double quotes, where a backslash begins an escape, or between single quotes,
where it does not. Between three quotes they may go over lines: a line end right behind the opening
quotes is dropped, a line end is always a newline, and a backslash at the end of a line takes the
blanks and line ends that follow with it. One or two more quotes may stand before the closing ones.

Behind its opening quotes a string is nothing else, so all faults in it are final. -/

namespace SyntaxLens.Toml

/-- Characters that may stand in a string or a comment. -/
def isTextChar (c : Char) : Bool := c == '\t' || (0x20 ≤ c.toNat && c.toNat != 0x7f)

/-- Blanks within a line. -/
def isSpace (c : Char) : Bool := c == ' ' || c == '\t'

/-- The value of a digit in any base up to sixteen. -/
def digit? (c : Char) : Option Nat :=
  if c.isDigit then some (c.toNat - '0'.toNat)
  else if 'a' ≤ c ∧ c ≤ 'f' then some (c.toNat - 'a'.toNat + 10)
  else if 'A' ≤ c ∧ c ≤ 'F' then some (c.toNat - 'A'.toNat + 10)
  else none

def isDigitOf (base : Nat) (c : Char) : Bool := (digit? c).any (· < base)

/-- The value of digits of a base, most significant first. -/
def digitsValue (base : Nat) (digits : List Char) : Nat :=
  digits.foldl (fun n c => n * base + (digit? c).getD 0) 0

/-! ### Escapes -/

/-- The character that a backslash and `c` stand for. -/
def shortEscape? (c : Char) : Option Char :=
  match c with
  | 'b' => some '\x08'
  | 't' => some '\t'
  | 'n' => some '\n'
  | 'f' => some '\x0c'
  | 'r' => some '\r'
  | '"' => some '"'
  | '\\' => some '\\'
  | _ => none

/-- The character with a code point in hexadecimal. -/
def codePoint? (digits : List Char) : Option Char :=
  let n := digitsValue 16 digits
  if digits.all (isDigitOf 16) ∧ n.isValidChar then some (Char.ofNat n) else none

/-- The place of an escape that there is not: behind the character that the backslash stands before,
or at that character if it takes several bytes. -/
def badEscape (c : Char) (rest : List Char) : Fault :=
  ⟨if c.utf8Size = 1 then rest else c :: rest, true⟩

/-! ### One line -/

/-- The rest of a string between double quotes; `acc` holds the characters read, last first. -/
def basicBody (acc : List Char) : List Char → Except Fault (String × List Char)
  | '"' :: rest => .ok (String.ofList acc.reverse, rest)
  | '\\' :: 'u' :: a :: b :: c :: d :: rest =>
    match codePoint? [a, b, c, d] with
    | some x => basicBody (x :: acc) rest
    | none => .error ⟨a :: b :: c :: d :: rest, true⟩
  | '\\' :: 'U' :: a :: b :: c :: d :: e :: f :: g :: h :: rest =>
    match codePoint? [a, b, c, d, e, f, g, h] with
    | some x => basicBody (x :: acc) rest
    | none => .error ⟨a :: b :: c :: d :: e :: f :: g :: h :: rest, true⟩
  | '\\' :: c :: rest =>
    match shortEscape? c with
    | some x => basicBody (x :: acc) rest
    | none => .error (badEscape c rest)
  | c :: rest =>
    if isTextChar c && c != '\\' then basicBody (c :: acc) rest else .error ⟨c :: rest, true⟩
  | [] => .error ⟨[], true⟩

/-- The rest of a string between single quotes. -/
def literalBody (acc : List Char) : List Char → Except Fault (String × List Char)
  | '\'' :: rest => .ok (String.ofList acc.reverse, rest)
  | c :: rest => if isTextChar c then literalBody (c :: acc) rest else .error ⟨c :: rest, true⟩
  | [] => .error ⟨[], true⟩

/-! ### Several lines -/

/-- What stands behind the three closing quotes of a string: up to two more quotes that belong to
it, and the rest. -/
def closing (quote : Char) (acc : List Char) (rest : List Char) : String × List Char :=
  let extra := ((rest.take 2).takeWhile (· == quote)).length
  (String.ofList (List.replicate extra quote ++ acc).reverse, rest.drop extra)

/-- Whether a line ends here, blanks aside. -/
def endsLine (cs : List Char) : Bool :=
  match cs.dropWhile isSpace with
  | '\n' :: _ | '\r' :: '\n' :: _ => true
  | _ => false

/-- The rest of a string between three double quotes; `trimming` says that blanks and line ends are
being dropped. Quotes that do not close the string need something behind them. -/
def basicLines (trimming : Bool) (acc : List Char) : List Char → Except Fault (String × List Char)
  | '"' :: '"' :: '"' :: rest => .ok (closing '"' acc rest)
  | ['"', '"'] => .error ⟨['"', '"'], true⟩
  | ['"'] => .error ⟨['"'], true⟩
  | '\r' :: '\n' :: rest =>
    if trimming then basicLines true acc rest else basicLines false ('\n' :: acc) rest
  | '\\' :: 'u' :: a :: b :: c :: d :: rest =>
    match codePoint? [a, b, c, d] with
    | some x => basicLines false (x :: acc) rest
    | none => .error ⟨a :: b :: c :: d :: rest, true⟩
  | '\\' :: 'U' :: a :: b :: c :: d :: e :: f :: g :: h :: rest =>
    match codePoint? [a, b, c, d, e, f, g, h] with
    | some x => basicLines false (x :: acc) rest
    | none => .error ⟨a :: b :: c :: d :: e :: f :: g :: h :: rest, true⟩
  | '\\' :: c :: rest =>
    match shortEscape? c with
    | some x => basicLines false (x :: acc) rest
    | none =>
      if endsLine (c :: rest) then basicLines true acc (c :: rest) else .error (badEscape c rest)
  | c :: rest =>
    if trimming ∧ (isSpace c ∨ c = '\n') then basicLines true acc rest
    else if (isTextChar c && c != '\\') ∨ c = '\n' then basicLines false (c :: acc) rest
    else .error ⟨c :: rest, true⟩
  | [] => .error ⟨[], true⟩

/-- Whether a string between three single quotes goes on here, without a quote. -/
def goesOn (cs : List Char) : Bool :=
  match cs with
  | '\n' :: _ | '\r' :: '\n' :: _ => true
  | c :: _ => isTextChar c
  | [] => false

/-- The rest of a string between three single quotes. Quotes that do not close the string need
something behind them. -/
def literalLines (acc : List Char) : List Char → Except Fault (String × List Char)
  | '\'' :: '\'' :: '\'' :: rest => .ok (closing '\'' acc rest)
  | '\'' :: '\'' :: rest =>
    if goesOn rest then literalLines ('\'' :: '\'' :: acc) rest
    else .error ⟨'\'' :: '\'' :: rest, true⟩
  | '\'' :: rest =>
    if goesOn rest then literalLines ('\'' :: acc) rest else .error ⟨'\'' :: rest, true⟩
  | '\r' :: '\n' :: rest => literalLines ('\n' :: acc) rest
  | c :: rest =>
    if isTextChar c ∨ c = '\n' then literalLines (c :: acc) rest else .error ⟨c :: rest, true⟩
  | [] => .error ⟨[], true⟩

/-- Drops a line end at the front. -/
def dropLineEnd : List Char → List Char
  | '\n' :: rest => rest
  | '\r' :: '\n' :: rest => rest
  | cs => cs

/-! ### Strings -/

/-- A string in quotes on one line. -/
def quotedLine : Reader String := fun cs =>
  match cs with
  | '"' :: rest => basicBody [] rest
  | '\'' :: rest => literalBody [] rest
  | _ => .error ⟨cs, false⟩

/-- A string in quotes of any kind. -/
def quoted : Reader String := fun cs =>
  match cs with
  | '"' :: '"' :: '"' :: rest => basicLines false [] (dropLineEnd rest)
  | '\'' :: '\'' :: '\'' :: rest => literalLines [] (dropLineEnd rest)
  | _ => quotedLine cs

end SyntaxLens.Toml

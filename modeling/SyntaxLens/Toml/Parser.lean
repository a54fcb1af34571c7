import SyntaxLens.Toml.Table

/-! # Reading TOML

`Toml.parse` reads a whole document, or says where reading stops.

* A line holds nothing, a header in single or double brackets, or a key with its value, and may end
  in a comment. Only arrays and the strings between three quotes go over lines.
* Arrays and tables in braces may be nested `maxDepth` deep, and a key has at most that many names.
* A statement takes effect when its line has been read. One that does not fit what has been read
  before is at fault at its beginning. -/

namespace SyntaxLens.Toml

namespace Parser

open Reader

def maxDepth : Nat := 79

/-! ### Blanks and comments -/

def skipSpace : Reader Unit := skip isSpace

/-- Passes over blanks, and over a comment up to the end of its line. -/
def skipComment : Reader Unit := do
  skipSpace
  match ← get with
  | '#' :: _ => skip isTextChar
  | _ => return ()

/-- The end of a line on which nothing is left. -/
def lineEnd : Reader Unit := fun cs =>
  match cs with
  | [] => .ok ((), [])
  | '\n' :: rest => .ok ((), rest)
  | '\r' :: '\n' :: rest => .ok ((), rest)
  | _ => .error ⟨cs, false⟩

/-- The rest of a line, where only blanks and a comment may stand. -/
def endLine : Reader Unit := do
  skipComment
  lineEnd

/-- Drops blanks, comments and line ends; `comment` says that a comment goes on. A comment ends with
its line. -/
def dropLines (comment : Bool) : List Char → List Char
  | '\n' :: rest => dropLines false rest
  | '\r' :: '\n' :: rest => dropLines false rest
  | c :: rest =>
    if comment then (if isTextChar c then dropLines true rest else c :: rest)
    else if isSpace c then dropLines false rest
    else if c = '#' then dropLines true rest
    else c :: rest
  | [] => []

def skipLines : Reader Unit := modify (dropLines false)

/-! ### Keys -/

def isBareChar (c : Char) : Bool := c.isAlphanum || c == '_' || c == '-'

/-- One name of a key, with blanks around it. -/
def part : Reader Part := do
  skipSpace
  let place ← get
  let name ← match place with
    | '"' :: _ | '\'' :: _ => quotedLine
    | _ => do
      let first ← satisfy isBareChar
      pure (String.ofList (first :: (← span isBareChar)))
  skipSpace
  return ⟨name, place⟩

/-- The further names of a key behind those of `acc`, which holds the last one first. A point with
no name behind it is left. There are at most `limit` of them. -/
def moreParts : (limit : Nat) → List Part → Reader (List Part)
  | 0, acc => return acc
  | limit + 1, acc => do
    match ← optional (do let _ ← char '.'; part) with
    | some p => moreParts limit (p :: acc)
    | none => return acc

/-- A key, as the names on the way and the last one. -/
def key : Reader (List Part × Part) :=
  require
    (fun parts : List Part =>
      match parts with
      | last :: before =>
        if parts.length ≤ maxDepth then some (before.reverse, last) else none
      | [] => none)
    (do moreParts (← get).length [← part])

/-! ### Values -/

/-- A member of a table in braces. -/
structure Member where
  path : List Part
  last : Part
  node : Node

/-- The entries of the table that some members make. -/
def membersTable? (members : List Member) : Option Section :=
  members.foldlM (fun s m => Section.enter m.node m.last m.path s) []

mutual

/-- A value at the front of the text; `depth` more arrays and tables may be opened, and `steps`
bounds the calls that are left. -/
def value : (steps depth : Nat) → Reader Node
  | 0, _ => fail
  | steps + 1, depth => do
    let place ← get
    match place, depth with
    | '[' :: _, 0 | '\x7b' :: _, 0 => failAt place
    | '[' :: rest, depth + 1 => do
      set rest
      return .list (← elements steps depth [] rest) place
    | '\x7b' :: rest, depth + 1 => do
      set rest
      let members ← members steps depth [] rest
      skipSpace
      match membersTable? members with
      | some s =>
        let _ ← commit (char '\x7d')
        return .table (Section.toEntries s) place
      | none => failAt rest
    | _, _ => return .scalar (← scalar) place

/-- The elements of an array and the bracket that closes it; `acc` holds those before, last first,
and `before` is the text from before the comma. A comma that no element follows is dropped. -/
def elements : (steps depth : Nat) → List Node → List Char → Reader (List Node)
  | 0, _, _, _ => fail
  | steps + 1, depth, acc, before => do
    match ← optional (do skipLines; let n ← value steps depth; skipLines; return n) with
    | some n => do
      let acc := n :: acc
      match ← get with
      | ',' :: rest => do
        let before ← get
        set rest
        elements steps depth acc before
      | _ => closeArray acc
    | none => do
      set before
      closeArray acc
where
  /-- The end of an array. -/
  closeArray (acc : List Node) : Reader (List Node) := do
    if !acc.isEmpty then
      let _ ← optional (char ',')
    skipLines
    let _ ← commit (char ']')
    return acc.reverse

/-- The members of a table in braces; `acc` holds those before, last first, and `before` is the text
from before the comma, which is left if no member follows. -/
def members : (steps depth : Nat) → List Member → List Char → Reader (List Member)
  | 0, _, _, _ => fail
  | steps + 1, depth, acc, before => do
    match ← optional (member steps depth) with
    | some m =>
      let acc := m :: acc
      match ← get with
      | ',' :: rest => do
        let before ← get
        set rest
        members steps depth acc before
      | _ => return acc.reverse
    | none => do
      set before
      return acc.reverse

/-- A member of a table in braces. -/
def member : (steps depth : Nat) → Reader Member
  | 0, _ => fail
  | steps + 1, depth => do
    let (path, last) ← key
    commit do
      let _ ← char '='
      skipSpace
      let n ← value steps depth
      skipSpace
      return ⟨path, last, n⟩

end

/-! ### Lines -/

/-- A header between brackets. -/
def header (opening closing : List Char) : Reader (List Part × Part) := do
  word opening
  let k ← commit key
  commit (word closing)
  commit endLine
  return k

/-- A key with its value. -/
def entry : Reader Statement := do
  let (path, last) ← key
  commit do
    let _ ← char '='
    skipSpace
    let n ← value (3 * (← get).length + 3) maxDepth
    endLine
    return .entry path last n

/-- What the line at the front of the text defines, if it is not empty. -/
def statement : Reader (Option Statement) := do
  let place ← get
  match place with
  | '[' :: '[' :: _ =>
    let (path, last) ← header ['[', '['] [']', ']']
    return some (.element path last place)
  | ['['] => fail
  | '[' :: _ =>
    let (path, last) ← header ['['] [']']
    return some (.header path last place)
  | [] | '#' :: _ | '\n' :: _ | '\r' :: _ =>
    endLine
    return none
  | _ => return some (← entry)

/-- Follows the lines of a text. A line takes at least one character, so there are at most `limit`
of them. -/
def statements : (limit : Nat) → Progress → Reader Progress
  | 0, _ => fail
  | limit + 1, p => do
    skipSpace
    let place ← get
    if place.isEmpty then return p
    match ← statement with
    | none => statements limit p
    | some s =>
      match p.add? s with
      | some p => statements limit p
      | none => failAt place

end Parser

/-- The node of a document. A mark of the byte order in front of it is skipped. -/
def node : Reader Node := do
  let _ ← Reader.optional (Reader.char '\ufeff')
  let place ← get
  let p ← Parser.statements (place.length + 1) ⟨[], []⟩
  return .table (Section.toEntries p.root) place

/-- The value of a document. -/
def parse (text : String) : Except Position Value :=
  let cs := text.toList
  match node cs with
  | .ok (n, _) => n.toValue.mapError (Position.of cs)
  | .error f => .error (Position.of cs f.rest)

end SyntaxLens.Toml

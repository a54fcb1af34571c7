/-! # Readers

A reader takes what it needs from the front of a text and leaves the rest, or it fails.

* A `Fault` is the place of a failure. It leaves open whether the text can be read in another way,
  or it is final: `commit` makes it so once it is clear what is being read.
* `orElse`, `optional` and `require` are choices. What a reader that failed has taken is put back
  before another one is tried.
* `Position.of` is the line and the column of a place in a text. -/

namespace SyntaxLens.Toml

/-- The place of a failure, as the text from there on. -/
structure Fault where
  rest : List Char
  /-- Whether no other way of reading is to be tried. -/
  final : Bool

/-- A reader takes what it needs from the front of a text. -/
abbrev Reader := StateT (List Char) (Except Fault)

namespace Reader

variable {α β : Type}

/-- Fails where the text has been read to. -/
def fail : Reader α := fun cs => .error ⟨cs, false⟩

/-- Fails at another place. -/
def failAt (rest : List Char) : Reader α := fun _ => .error ⟨rest, true⟩

/-- Reads `r`, and nothing else. -/
def commit (r : Reader α) : Reader α := fun cs =>
  (r cs).mapError fun f => { f with final := true }

/-- Reads the first of two, or else the second. -/
def orElse (first second : Reader α) : Reader α := fun cs =>
  match first cs with
  | .error ⟨_, false⟩ => second cs
  | result => result

/-- Reads `r` if that can be read. -/
def optional (r : Reader α) : Reader (Option α) := orElse (some <$> r) (pure none)

/-- Reads `r`, where only some results will do. The place of a refused one is where it begins. -/
def require (f : α → Option β) (r : Reader α) : Reader β := fun cs =>
  match r cs with
  | .ok (a, rest) =>
    match f a with
    | some b => .ok (b, rest)
    | none => .error ⟨cs, false⟩
  | .error f => .error f

/-- A character of a class. -/
def satisfy (p : Char → Bool) : Reader Char := fun cs =>
  match cs with
  | c :: rest => if p c then .ok (c, rest) else .error ⟨cs, false⟩
  | [] => .error ⟨[], false⟩

/-- A certain character. -/
def char (c : Char) : Reader Char := satisfy (· == c)

/-- Certain characters, all of them. -/
def word (w : List Char) : Reader Unit := fun cs =>
  if w.isPrefixOf cs then .ok ((), cs.drop w.length) else .error ⟨cs, false⟩

/-- The characters of a class at the front. -/
def span (p : Char → Bool) : Reader (List Char) := fun cs =>
  .ok (cs.takeWhile p, cs.dropWhile p)

/-- Passes over the characters of a class. -/
def skip (p : Char → Bool) : Reader Unit := modify (·.dropWhile p)

end Reader

/-- A place in a text: lines and columns count from one. -/
structure Position where
  line : Nat
  column : Nat
deriving DecidableEq, Repr

/-- The place in a text from which `rest` is left. Columns count characters up to the place, but
bytes if the character there takes several of them. The end of a text is behind its last character,
on the line which that character ends. -/
def Position.of (text rest : List Char) : Position :=
  let passed := text.take (text.length - rest.length)
  match rest with
  | c :: _ =>
    let line := passed.reverse.takeWhile (· != '\n')
    ⟨1 + passed.count '\n',
      1 + if c.utf8Size = 1 then line.length else (String.ofList line).utf8ByteSize⟩
  | [] =>
    let before := passed.dropLast
    ⟨1 + before.count '\n', passed.length - before.length +
      (before.reverse.takeWhile (· != '\n')).length + 1⟩

end SyntaxLens.Toml

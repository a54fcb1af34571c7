import SyntaxLens.Document.Load

/-! # Snapshots

A stream of documents, one a line. Each line that is not blank gives one result, in order, and a
line that does not load affects no other. A line that is no UTF-8 ends the stream with an error.

* `Snapshots.lines` cuts bytes into lines: at each newline, without the carriage return in front of
  it. What stands behind the last newline is a line too, unless it is empty.
* `Snapshots.results` are the results of a stream, `Snapshots.resultsUntil` those of one that cannot
  be read to its end.
* `Snapshots` is a stream in use: what its reader has still to send, and what waits to be taken.
  `receive` sends one result, `next?` takes the next one, `latest` takes all that wait and keeps the
  last tree. -/

namespace SyntaxLens.Snapshots

/-- What a line of a stream gives. -/
abbrev Result := Except LoadError Tree

def newline : UInt8 := 10

def carriageReturn : UInt8 := 13

/-- The lines of a text. -/
def lines : List UInt8 → List (List UInt8)
  | [] => []
  | b :: rest =>
    if b = newline then [] :: lines rest
    else match rest with
      | c :: more =>
        if b = carriageReturn ∧ c = newline then [] :: lines more
        else match lines (c :: more) with
          | [] => [[b]]
          | first :: others => (b :: first) :: others
      | [] => [[b]]

/-- The text of a line, if it is UTF-8. -/
def decode? (line : List UInt8) : Option String := String.fromUTF8? ⟨line.toArray⟩

/-- Why a stream ends before its end. -/
def invalidText : LoadError := .unreadable "stream did not contain valid UTF-8"

/-- The results of lines, up to the first that is no text. -/
def ofLines : List (List UInt8) → List Result
  | [] => []
  | line :: rest =>
    match decode? line with
    | none => [.error invalidText]
    | some text =>
      if Text.isAllBlank text.toList then ofLines rest
      else Document.loadText text :: ofLines rest

/-- The results that the reader of an input sends. -/
def results (bytes : List UInt8) : List Result := ofLines (lines bytes)

/-- How an input ends: behind its last byte, or where it cannot be read any further. -/
inductive Ending where
  | complete
  | failure (cause : String)
deriving DecidableEq, Repr

/-- The bytes up to the last newline. -/
def wholeLines (bytes : List UInt8) : List UInt8 :=
  (bytes.reverse.dropWhile (· != newline)).reverse

/-- The results that the reader of an input sends. Where reading fails, the line that it fails in is
lost, and its error is the last result unless a line before it was no text. -/
def resultsUntil (bytes : List UInt8) : Ending → List Result
  | .complete => results bytes
  | .failure cause =>
    let whole := lines (wholeLines bytes)
    ofLines whole ++
      if whole.all fun line => (decode? line).isSome then [.error (.unreadable cause)] else []

/-- The tree of a result that loaded. -/
def tree? : Result → Option Tree
  | .ok t => some t
  | .error _ => none

/-- The last tree among results. -/
def latest? (results : List Result) : Option Tree := results.reverse.findSome? tree?

end Snapshots

/-- A stream of snapshots in use. Results pass from the reader to the waiting line in order, and
none is lost. -/
structure Snapshots where
  /-- The results that the reader has not sent. -/
  unread : List Snapshots.Result
  /-- The results that were sent and not taken, first come first. -/
  waiting : List Snapshots.Result

namespace Snapshots

/-- The stream over an input of which nothing has been read. -/
def ofBytes (bytes : List UInt8) : Snapshots := ⟨results bytes, []⟩

/-- The stream over an input that may fail, of which nothing has been read. -/
def ofInput (bytes : List UInt8) (ending : Ending) : Snapshots := ⟨resultsUntil bytes ending, []⟩

variable (s : Snapshots)

/-- The reader sends its next result. -/
def receive : Snapshots :=
  match s.unread with
  | [] => s
  | r :: rest => ⟨rest, s.waiting ++ [r]⟩

/-- The reader sends all that is left. -/
def finish : Snapshots := ⟨[], s.waiting ++ s.unread⟩

/-- Takes the next result, after waiting for it if none is there. -/
def next? : Option (Result × Snapshots) :=
  match s.waiting ++ s.unread with
  | [] => none
  | r :: _ => some (r, ⟨if s.waiting.isEmpty then s.unread.tail else s.unread, s.waiting.tail⟩)

/-- Takes all results that wait, and gives the last tree among them. -/
def latest : Option Tree × Snapshots := (latest? s.waiting, { s with waiting := [] })

end Snapshots

end SyntaxLens

import SyntaxLens.Number.Decimal
import SyntaxLens.Toml.Reader

/-! # Dates and times

A moment is a date, a time of day, or a date with a time and perhaps the offset of its zone.

* `Moment.text` is its text in one spelling: a `T` between date and time, a `Z` in upper case, at
  most nine places of a second and no zeros at their end.
* `Moment.read` reads one from the front of a text. What begins like a date or, behind the colon of
  its hour, like a time is nothing else; a time or an offset that does not fit is left.
* `Moment.ofText?` takes a whole text as a moment, within wider limits. -/

namespace SyntaxLens.Toml

structure Date where
  year : Nat
  month : Nat
  day : Nat
deriving DecidableEq, Repr

structure Time where
  hour : Nat
  minute : Nat
  second : Nat
  nanosecond : Nat
deriving DecidableEq, Repr

/-- How far the clocks of a zone are ahead. -/
inductive Offset where
  | utc
  | minutes (n : Int)
deriving DecidableEq, Repr

inductive Moment where
  | date (d : Date)
  | time (t : Time)
  | both (d : Date) (t : Time) (offset : Option Offset)
deriving DecidableEq, Repr

/-! ### Text -/

/-- A number with at least so many digits. -/
def padded (width n : Nat) : List Char :=
  let digits := Nat.toDigits 10 n
  List.replicate (width - digits.length) '0' ++ digits

def Date.text (d : Date) : List Char :=
  padded 4 d.year ++ '-' :: padded 2 d.month ++ '-' :: padded 2 d.day

/-- The places of a second. -/
def places (nanosecond : Nat) : List Char :=
  match ((padded 9 nanosecond).reverse.dropWhile (· == '0')).reverse with
  | [] => []
  | digits => '.' :: digits

def Time.text (t : Time) : List Char :=
  padded 2 t.hour ++ ':' :: padded 2 t.minute ++ ':' :: padded 2 t.second ++ places t.nanosecond

def Offset.text : Offset → List Char
  | .utc => ['Z']
  | .minutes n =>
    (if n < 0 then '-' else '+') :: padded 2 (n.natAbs / 60) ++ ':' :: padded 2 (n.natAbs % 60)

def Moment.text (m : Moment) : String :=
  String.ofList <| match m with
  | .date d => d.text
  | .time t => t.text
  | .both d t offset => d.text ++ 'T' :: t.text ++ (offset.map Offset.text).getD []

/-! ### Reading -/

/-- The largest hour of a time, and hour and minute of an offset. -/
structure Limits where
  hour : Nat
  offsetHour : Nat
  offsetMinute : Nat

open Reader

/-- A number of two digits between two bounds. -/
def pair (low high : Nat) : Reader Nat := fun cs =>
  match cs with
  | a :: b :: rest =>
    let n := Decimal.value [a, b]
    if a.isDigit ∧ b.isDigit ∧ low ≤ n ∧ n ≤ high then .ok (n, rest) else .error ⟨cs, false⟩
  | _ => .error ⟨cs, false⟩

/-- A year, which has four digits. -/
def readYear : Reader Nat := fun cs =>
  match cs with
  | a :: b :: c :: d :: rest =>
    if [a, b, c, d].all Char.isDigit then .ok (Decimal.value [a, b, c, d], rest)
    else .error ⟨cs, false⟩
  | _ => .error ⟨cs, false⟩

/-- The number of days of a month. -/
def daysIn (year month : Nat) : Nat :=
  if month = 2 then
    if year % 4 = 0 ∧ (year % 100 ≠ 0 ∨ year % 400 = 0) then 29 else 28
  else if month = 4 ∨ month = 6 ∨ month = 9 ∨ month = 11 then 30
  else 31

def Date.read : Reader Date := do
  let y ← readYear
  let _ ← char '-'
  commit do
    let m ← pair 1 12
    let _ ← char '-'
    let d ← pair 1 (daysIn y m)
    return ⟨y, m, d⟩

/-- Places of a second, of which the first nine count. -/
def readPlaces : Reader Nat := do
  let _ ← char '.'
  let first ← satisfy Char.isDigit
  let digits := (first :: (← span Char.isDigit)).take 9
  return Decimal.value (digits ++ List.replicate (9 - digits.length) '0')

def Time.read (limits : Limits) : Reader Time := do
  let hour ← pair 0 limits.hour
  let _ ← char ':'
  commit do
    let minute ← pair 0 59
    let _ ← char ':'
    let second ← pair 0 60
    return ⟨hour, minute, second, (← optional readPlaces).getD 0⟩

/-- An offset is less than a day, or a day. -/
def Offset.ofMinutes? (n : Int) : Option Offset :=
  if n.natAbs ≤ 1440 then some (.minutes n) else none

def Offset.read (limits : Limits) : Reader Offset := do
  let sign ← satisfy fun c => c == 'Z' || c == 'z' || c == '+' || c == '-'
  if sign = 'Z' ∨ sign = 'z' then return .utc
  require Offset.ofMinutes? <| commit do
    let hour ← pair 0 limits.offsetHour
    let _ ← char ':'
    let n : Int := hour * 60 + (← pair 0 limits.offsetMinute)
    return if sign = '-' then -n else n

/-- A time with its offset, behind a date. -/
def readClock (limits : Limits) : Reader (Time × Option Offset) := do
  let _ ← satisfy fun c => c == 'T' || c == 't' || c == ' '
  let t ← Time.read limits
  return (t, ← optional (Offset.read limits))

def Moment.readWithin (limits : Limits) : Reader Moment :=
  orElse
    (do
      let d ← Date.read
      match ← optional (readClock limits) with
      | some (t, offset) => return .both d t offset
      | none => return .date d)
    (Moment.time <$> Time.read limits)

def Moment.read : Reader Moment := Moment.readWithin ⟨23, 23, 59⟩

def Moment.ofText? (text : String) : Option Moment :=
  match Moment.readWithin ⟨24, 99, 99⟩ text.toList with
  | .ok (m, []) => some m
  | _ => none

end SyntaxLens.Toml

/-! # Command-line arguments

The arguments of a command are options and at most one name. A long option begins with two dashes, a
short one with a single dash; short ones without values can be run together. The value of an option
stands behind `=`, right behind the letter of a short one, or in the next argument, which must not
begin with a dash then. Everything behind `--` is a name, and so is a single dash.

* `Usage.read` reads arguments one after the other. What comes first decides: a fault, or the wish
  to see the version or some help. -/

namespace SyntaxLens.Command

/-- An option that a command has. -/
structure Switch where
  long : String
  short : Option Char
  takesValue : Bool
  /-- Whether it can be given more than once. -/
  repeats : Bool
deriving DecidableEq, Repr

/-- An option with its value, which is empty if it takes none, or a name. -/
inductive Given where
  | switch (long value : String)
  | name (text : String)
deriving DecidableEq, Repr

/-- Why arguments are not read to their end. -/
inductive Halt where
  | misuse
  | version
  | help
deriving DecidableEq, Repr

/-- The options of a command. -/
structure Usage where
  switches : List Switch

namespace Usage

variable (u : Usage)

/-- Every command can show its version and some help. -/
def version : Switch := ⟨"version", some 'V', false, false⟩

def help : Switch := ⟨"help", some 'h', false, false⟩

def all : List Switch := u.switches ++ [version, help]

def ofLong? (long : String) : Option Switch := u.all.find? fun s => s.long == long

def ofShort? (c : Char) : Option Switch := u.all.find? fun s => s.short == some c

/-- Whether a switch or a name has been given that cannot be given again. -/
def exhausted (given : List Given) : Given → Bool
  | .name _ => given.any fun
    | .name _ => true
    | .switch .. => false
  | .switch long _ =>
    (u.ofLong? long).any (!·.repeats) && given.any fun
      | .name _ => false
      | .switch other _ => other == long

/-- Adds what has been read to what was given before. -/
def add (given : List Given) (g : Given) : Except Halt (List Given) :=
  if g = .switch version.long "" then .error .version
  else if g = .switch help.long "" then .error .help
  else if u.exhausted given g then .error .misuse
  else .ok (given ++ [g])

/-- Whether an argument can be the value of the option before it. -/
def isValue (arg : List Char) : Bool :=
  match arg with
  | ['-'] => true
  | '-' :: _ => false
  | _ => true

/-- The letters of short options. What is left at the end is the option that waits for its value. -/
def letters (given : List Given) : List Char → Except Halt (List Given × Option String)
  | [] => .ok (given, none)
  | c :: rest =>
    match u.ofShort? c with
    | none => .error .misuse
    | some s =>
      if s.takesValue then
        match rest with
        | [] => .ok (given, some s.long)
        | '=' :: value | value => do
          return (← u.add given (.switch s.long (String.ofList value)), none)
      else do letters (← u.add given (.switch s.long "")) rest

/-- A long option, without its dashes. -/
def word (given : List Given) (arg : List Char) : Except Halt (List Given × Option String) := do
  let long := String.ofList (arg.takeWhile (· != '='))
  match u.ofLong? long, arg.dropWhile (· != '=') with
  | none, _ => .error .misuse
  | some s, [] =>
    if s.takesValue then .ok (given, some s.long)
    else return (← u.add given (.switch s.long ""), none)
  | some s, _ :: value =>
    if s.takesValue then return (← u.add given (.switch s.long (String.ofList value)), none)
    else .error .misuse

/-- Reads arguments; `waiting` is the option that waits for its value. -/
def readFrom (given : List Given) (waiting : Option String) : List String →
    Except Halt (List Given)
  | [] => if waiting.isSome then .error .misuse else .ok given
  | arg :: rest =>
    match waiting with
    | some long =>
      if isValue arg.toList then do readFrom (← u.add given (.switch long arg)) none rest
      else .error .misuse
    | none =>
      match arg.toList with
      | ['-', '-'] => rest.foldlM (fun given arg => u.add given (.name arg)) given
      | '-' :: '-' :: arg => do
        let (given, waiting) ← u.word given arg
        readFrom given waiting rest
      | '-' :: c :: cs => do
        let (given, waiting) ← u.letters given (c :: cs)
        readFrom given waiting rest
      | _ => do readFrom (← u.add given (.name arg)) none rest

/-- Reads the arguments of a command. -/
def read (args : List String) : Except Halt (List Given) := u.readFrom [] none args

end Usage

/-! ### What was given -/

namespace Given

/-- The name that was given. -/
def name? (given : List Given) : Option String :=
  given.findSome? fun
    | .name text => some text
    | .switch .. => none

/-- The values of an option, in order. -/
def values (given : List Given) (long : String) : List String :=
  given.filterMap fun
    | .name _ => none
    | .switch other value => if other = long then some value else none

def value? (given : List Given) (long : String) : Option String := (values given long).head?

def has (given : List Given) (long : String) : Bool := (value? given long).isSome

end Given

end SyntaxLens.Command

/-! # Errors in JSON texts

What is wrong with a text that is no JSON, and where. Places are counted in bytes of UTF-8: lines
from one, columns from zero within a line. -/

namespace SyntaxLens.Json

/-- What is wrong with a text. -/
inductive Cause where
  | endInList | endInObject | endInString | endInValue
  | noColon | noListEnd | noObjectEnd | noWord | noValue
  | badEscape | badNumber | outOfRange | controlCharacter
  | keyNoString | loneSurrogate | halfPair | trailingComma | trailingText | tooDeep
deriving DecidableEq, Repr

def Cause.text : Cause → String
  | .endInList => "EOF while parsing a list"
  | .endInObject => "EOF while parsing an object"
  | .endInString => "EOF while parsing a string"
  | .endInValue => "EOF while parsing a value"
  | .noColon => "expected \x60:\x60"
  | .noListEnd => "expected \x60,\x60 or \x60]\x60"
  | .noObjectEnd => "expected \x60,\x60 or \x60\x7d\x60"
  | .noWord => "expected ident"
  | .noValue => "expected value"
  | .badEscape => "invalid escape"
  | .badNumber => "invalid number"
  | .outOfRange => "number out of range"
  | .controlCharacter => "control character (\\u0000-\\u001F) found while parsing a string"
  | .keyNoString => "key must be a string"
  | .loneSurrogate => "lone leading surrogate in hex escape"
  | .halfPair => "unexpected end of hex escape"
  | .trailingComma => "trailing comma"
  | .trailingText => "trailing characters"
  | .tooDeep => "recursion limit exceeded"

/-- What is wrong with a text, and where. -/
structure ParseError where
  cause : Cause
  line : Nat
  column : Nat
deriving DecidableEq, Repr

def ParseError.message (e : ParseError) : String :=
  e.cause.text ++ " at line " ++ toString e.line ++ " column " ++ toString e.column

/-- The error at a place in a text, of which so many bytes have been passed. -/
def ParseError.after (cause : Cause) (text : String) (bytes : Nat) : ParseError :=
  let passed := text.toUTF8.toList.take bytes
  ⟨cause, 1 + passed.count 10, (passed.reverse.takeWhile (· != 10)).length⟩

end SyntaxLens.Json

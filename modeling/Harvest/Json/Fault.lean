/-!
# JSON faults

What is wrong with a text that is read as JSON, and where reading stood when it was noticed. A
fault of the grammar has a place at once; one of the contents gets the place at which the value
that it is about has been read.
-/

namespace Harvest.Json

/-- What is wrong with a text. -/
inductive Problem where
  | valueEnds
  | stringEnds
  | listEnds
  | objectEnds
  | expectedValue
  | expectedIdent
  | expectedColon
  | expectedListEnd
  | expectedObjectEnd
  | expectedKey
  | trailingComma
  | trailingCharacters
  | invalidNumber
  | numberOutOfRange
  | invalidEscape
  | controlCharacter
  | invalidCodePoint
  | loneSurrogate
  | brokenSurrogate
  | tooDeep
  | missingField (name : String)
  | duplicateField (name : String)
  | invalidLength (length : Nat) (expected : String)
  | invalidType (seen expected : String)
  | invalidValue (seen expected : String)
  | unknownVariant (name : String) (known : List String)
  | noVariant (type : String)
  | contents (message : String)
deriving DecidableEq, Repr

/-- A name between back quotes. -/
def backQuoted (name : String) : String := "`" ++ name ++ "`"

/-- The wording of a problem. -/
def Problem.message : Problem → String
  | valueEnds => "EOF while parsing a value"
  | stringEnds => "EOF while parsing a string"
  | listEnds => "EOF while parsing a list"
  | objectEnds => "EOF while parsing an object"
  | expectedValue => "expected value"
  | expectedIdent => "expected ident"
  | expectedColon => "expected `:`"
  | expectedListEnd => "expected `,` or `]`"
  | expectedObjectEnd => "expected `,` or `\x7d`"
  | expectedKey => "key must be a string"
  | trailingComma => "trailing comma"
  | trailingCharacters => "trailing characters"
  | invalidNumber => "invalid number"
  | numberOutOfRange => "number out of range"
  | invalidEscape => "invalid escape"
  | controlCharacter =>
    "control character (\\u0000-\\u001F) found while parsing a string"
  | invalidCodePoint => "invalid unicode code point"
  | loneSurrogate => "lone leading surrogate in hex escape"
  | brokenSurrogate => "unexpected end of hex escape"
  | tooDeep => "recursion limit exceeded"
  | missingField name => "missing field " ++ backQuoted name
  | duplicateField name => "duplicate field " ++ backQuoted name
  | invalidLength length expected => s!"invalid length {length}, expected {expected}"
  | invalidType seen expected => s!"invalid type: {seen}, expected {expected}"
  | invalidValue seen expected => s!"invalid value: {seen}, expected {expected}"
  | unknownVariant name known =>
    "unknown variant " ++ backQuoted name ++ ", expected one of " ++
      ", ".intercalate (known.map backQuoted)
  | noVariant type => "data did not match any variant of untagged enum " ++ type
  | contents message => message

/-- A problem and, once it is settled, the number of bytes that were unread at its place. -/
structure Fault where
  problem : Problem
  unread : Option Nat
deriving DecidableEq, Repr

/-- A line and a column: lines count from 1, and the column is the number of bytes of the line
before the place. -/
def lineAndColumn (before : List UInt8) : Nat × Nat :=
  (1 + before.count 0x0A, (before.reverse.takeWhile (· != 0x0A)).length)

/-- The wording of a fault in the given input. -/
def Fault.message (f : Fault) (input : List UInt8) : String :=
  match f.unread with
  | none => f.problem.message
  | some unread =>
    let (line, column) := lineAndColumn (input.take (input.length - unread))
    s!"{f.problem.message} at line {line} column {column}"

end Harvest.Json

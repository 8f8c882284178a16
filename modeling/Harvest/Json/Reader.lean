import Harvest.Arithmetic
import Harvest.Json.Fault
import Harvest.Json.Value
import Harvest.Text.Utf8

/-!
# Reading JSON

A reader consumes bytes from the front of its input and gives a value or a fault; what is left of
the input is known either way. This module holds the readers of tokens: blanks, words, strings and
numbers.
-/

namespace Harvest.Json

open Text (Bytes)

/-- A reader of values. -/
abbrev Reader (α : Type) := Bytes → Except Fault α × Bytes

namespace Reader

variable {α β : Type}

instance : Monad Reader where
  pure a := fun input ↦ (.ok a, input)
  bind read next := fun input ↦
    match read input with
    | (.ok a, rest) => next a rest
    | (.error fault, rest) => (.error fault, rest)

/-- A fault without a place yet. -/
def fail (problem : Problem) : Reader α := fun input ↦ (.error ⟨problem, none⟩, input)

/-- A fault at the place that reading has come to. -/
def failHere (problem : Problem) : Reader α :=
  fun input ↦ (.error ⟨problem, some input.length⟩, input)

/-- A fault behind the next byte, which stays unread. -/
def failNext (problem : Problem) : Reader α :=
  fun input ↦ (.error ⟨problem, some (input.length - 1)⟩, input)

/-- Give a fault without a place the one that reading has come to. -/
def settle (read : Reader α) : Reader α := fun input ↦
  match read input with
  | (.error ⟨problem, none⟩, rest) => (.error ⟨problem, some rest.length⟩, rest)
  | result => result

/-- Read contents and then what closes them, also behind contents with a fault; the fault of the
contents counts first. -/
def closing (read : Reader α) (close : Reader Unit) : Reader α := fun input ↦
  match read input with
  | (result, rest) =>
    match result, close rest with
    | .ok a, (.ok (), rest) => (.ok a, rest)
    | .ok _, (.error fault, rest) => (.error fault, rest)
    | .error fault, (_, rest) => (.error fault, rest)

/-- The next byte, which stays unread. -/
def peek? : Reader (Option UInt8) := fun input ↦ (.ok input.head?, input)

/-- Drop the next byte. -/
def advance : Reader Unit := fun input ↦ (.ok (), input.tail)

/-- The next byte. -/
def next? : Reader (Option UInt8) := fun input ↦ (.ok input.head?, input.tail)

/-- The input that is left. -/
def left : Reader Bytes := fun input ↦ (.ok input, input)

/-- Continue with the given input. -/
def goto (input : Bytes) : Reader Unit := fun _ ↦ (.ok (), input)

end Reader

open Reader

/-- The byte of an ASCII character. -/
def byte (c : Char) : UInt8 := c.toNat.toUInt8

/-- Whether a byte is blank between tokens. -/
def isBlankByte (b : UInt8) : Bool :=
  b == byte ' ' || b == byte '\n' || b == byte '\t' || b == byte '\r'

/-- The value of a decimal digit. -/
def digit? (b : UInt8) : Option Nat :=
  if byte '0' ≤ b ∧ b ≤ byte '9' then some (b.toNat - 0x30) else none

/-- Whether a byte is a decimal digit. -/
def isDigitByte (b : UInt8) : Bool := (digit? b).isSome

/-- Skip blanks and look at the byte behind them. -/
def peekToken : Reader (Option UInt8) := do
  goto ((← left).dropWhile isBlankByte)
  peek?

/-- Read the rest of a word. -/
def restOfWord : List Char → Reader Unit
  | [] => pure ()
  | c :: cs => do
    match ← next? with
    | none => failHere .valueEnds
    | some b => if b = byte c then restOfWord cs else failHere .expectedIdent

/-! ## Strings -/

/-- The value of a hexadecimal digit. -/
def hexDigit? (b : UInt8) : Option Nat :=
  if byte '0' ≤ b ∧ b ≤ byte '9' then some (b.toNat - 0x30)
  else if byte 'A' ≤ b ∧ b ≤ byte 'F' then some (b.toNat - 0x37)
  else if byte 'a' ≤ b ∧ b ≤ byte 'f' then some (b.toNat - 0x57)
  else none

/-- Read four hexadecimal digits. -/
def fourHexDigits : Reader Nat := do
  match ← left with
  | a :: b :: c :: d :: rest =>
    goto rest
    match hexDigit? a, hexDigit? b, hexDigit? c, hexDigit? d with
    | some a, some b, some c, some d => return ((a * 16 + b) * 16 + c) * 16 + d
    | _, _, _, _ => failHere .invalidEscape
  | _ =>
    goto []
    failHere .stringEnds

/-- The byte that an escape of one character stands for. -/
def simpleEscape? (b : UInt8) : Option UInt8 :=
  [(byte '"', byte '"'), (byte '\\', byte '\\'), (byte '/', byte '/'), (byte 'b', 0x08),
    (byte 'f', 0x0C), (byte 'n', 0x0A), (byte 'r', 0x0D), (byte 't', 0x09)].lookup b

/-- Read one byte that has to follow in an escape of two units. -/
def expectInPair (c : Char) : Reader Unit := do
  match ← peek? with
  | none => failHere .stringEnds
  | some b =>
    advance
    if b = byte c then pure () else failHere .brokenSurrogate

/-- Read a code point from behind `\u`; one beyond 16 bits is a pair of units. -/
def codePoint : Reader Char := do
  let unit ← fourHexDigits
  if 0xDC00 ≤ unit ∧ unit ≤ 0xDFFF then failHere .loneSurrogate
  else if unit < 0xD800 ∨ 0xDBFF < unit then return Char.ofNat unit
  else
    expectInPair '\\'
    expectInPair 'u'
    let low ← fourHexDigits
    if 0xDC00 ≤ low ∧ low ≤ 0xDFFF then
      return Char.ofNat (0x10000 + (unit - 0xD800) * 0x400 + (low - 0xDC00))
    else failHere .loneSurrogate

/-- Read an escape from behind its backslash. -/
def escapeSequence : Reader Bytes := do
  match ← next? with
  | none => failHere .stringEnds
  | some b =>
    if b = byte 'u' then return String.utf8EncodeChar (← codePoint)
    else
      match simpleEscape? b with
      | some b => return [b]
      | none => failHere .invalidEscape

/-- Read the bytes of a string from behind its first quote up to its last one, which stays unread.
Each round reads at least one byte. -/
def stringBytes : Nat → Reader Bytes
  | 0 => failHere .stringEnds
  | rounds + 1 => do
    match ← peek? with
    | none => failHere .stringEnds
    | some b =>
      if b = byte '"' then return []
      else
        advance
        if b = byte '\\' then
          let head ← escapeSequence
          let tail ← stringBytes rounds
          return head ++ tail
        else if b < 0x20 then failHere .controlCharacter
        else
          let tail ← stringBytes rounds
          return b :: tail

/-- Read a string from behind its first quote. -/
def restOfString : Reader String := do
  let bytes ← stringBytes ((← left).length + 1)
  match Text.decode bytes with
  | none => failHere .invalidCodePoint
  | some cs =>
    advance
    return String.ofList cs

/-! ## Numbers -/

/-- Append digits to a number as long as it stays within a bound, and return the others. -/
def appendDigits (bound : Nat) : Nat → List Nat → Nat × List Nat
  | n, [] => (n, [])
  | n, d :: ds => if n * 10 + d ≤ bound then appendDigits bound (n * 10 + d) ds else (n, d :: ds)

/-- Read the digits that come next. -/
def digits : Reader (List Nat) := do
  let input ← left
  goto (input.dropWhile isDigitByte)
  return (input.takeWhile isDigitByte).filterMap digit?

/-- The greatest whole number of 64 bits. -/
def greatestNat : Nat := 2 ^ 64 - 1

/-- The greatest exponent that is told apart from greater ones. -/
def greatestExponent : Nat := 2 ^ 31 - 1

/-- Divide by a power of ten in steps that binary64 can hold. -/
def divideByTens (f : Binary64) (exponent : Nat) : Binary64 :=
  if f.mantissa = 0 then f
  else if exponent ≤ 308 then f.div (.ofNat (10 ^ exponent))
  else divideByTens (f.div (.ofNat (10 ^ 308))) (exponent - 308)
termination_by exponent

/-- The magnitude of a whole number times a power of ten, if it is finite. -/
def scaled (n : Nat) (exponent : Int) : Option Binary64 :=
  let f := Binary64.ofNat n
  if exponent < 0 then some (divideByTens f exponent.natAbs)
  else if f.mantissa = 0 then some f
  else if 308 < exponent then none
  else
    let product := f.mul (.ofNat (10 ^ exponent.toNat))
    if product.isInfinite then none else some product

/-- The number with the given sign, digits and power of ten. -/
def floatNumber (negative : Bool) (n : Nat) (exponent : Int) : Reader Number :=
  match scaled n exponent with
  | some magnitude => pure (.float negative magnitude)
  | none => failHere .numberOutOfRange

/-- Read an exponent from behind its letter. -/
def exponentPart (negative : Bool) (n : Nat) (exponent : Int) : Reader Number := do
  let sign ← peek?
  if sign = some (byte '+') ∨ sign = some (byte '-') then advance
  let minus := sign = some (byte '-')
  match (← next?).map digit? with
  | none => failHere .valueEnds
  | some none => failHere .invalidNumber
  | some (some first) =>
    let before ← left
    let ds ← digits
    let (size, others) := appendDigits greatestExponent first ds
    match others with
    | [] => floatNumber negative n (if minus then exponent - size else exponent + size)
    | _ :: _ =>
      if n ≠ 0 ∧ ¬minus then
        goto (before.drop (ds.length - others.length + 1))
        failHere .numberOutOfRange
      else return .float negative (.ofNat 0)

/-- Read the exponent that may follow. -/
def exponentOrEnd (negative : Bool) (n : Nat) (exponent : Int) : Reader Number := do
  let b ← peek?
  if b = some (byte 'e') ∨ b = some (byte 'E') then
    advance
    exponentPart negative n exponent
  else floatNumber negative n exponent

/-- Read a fraction from behind its point; digits that a whole number of 64 bits has no room for
are dropped. -/
def fractionPart (negative : Bool) (n : Nat) (exponent : Int) : Reader Number := do
  match ← digits with
  | [] =>
    match ← peek? with
    | none => failNext .valueEnds
    | some _ => failNext .invalidNumber
  | ds =>
    let (n, others) := appendDigits greatestNat n ds
    exponentOrEnd negative n (exponent - (ds.length - others.length : Nat))

/-- The number that a whole number without fraction and exponent is. -/
def wholeNumber (negative : Bool) (n : Nat) : Number :=
  if !negative then .nat n
  else if 0 < n ∧ n ≤ 2 ^ 63 then .negative n
  else .float true (.ofNat n)

/-- Read a number from behind its sign. -/
def numberBehindSign (negative : Bool) : Reader Number := do
  match (← next?).map digit? with
  | none => failHere .valueEnds
  | some none => failHere .invalidNumber
  | some (some first) =>
    if first = 0 ∧ (← peek?).any isDigitByte then failNext .invalidNumber
    else
      let (n, others) := appendDigits greatestNat first (← digits)
      let b ← peek?
      if b = some (byte '.') then
        advance
        fractionPart negative n others.length
      else if b = some (byte 'e') ∨ b = some (byte 'E') then
        advance
        exponentPart negative n others.length
      else if others = [] then return wholeNumber negative n
      else floatNumber negative n others.length

/-- Read a number that starts with the given byte. -/
def number (first : UInt8) : Reader Number :=
  if first = byte '-' then do
    advance
    numberBehindSign true
  else numberBehindSign false

/-- Whether a byte starts a number. -/
def startsNumber (b : UInt8) : Bool := b == byte '-' || isDigitByte b

end Harvest.Json

import Harvest.Json.Reader

/-!
# Reading JSON values

Lists and objects are read entry by entry, with the brackets around them. `value` keeps what it
reads, to a bounded depth; `skip` only checks the grammar of what it passes over, to any depth.
-/

namespace Harvest.Json

open Text (Bytes)
open Reader

variable {α σ : Type}

/-- How many brackets may be open at a time while values are kept. -/
def depthLimit : Nat := 127

/-- Whether another element of a list follows; the bracket behind the last one stays unread. -/
def hasElement (first : Bool) : Reader Bool := do
  match ← peekToken with
  | none => failNext .listEnds
  | some b =>
    if b = byte ']' then return false
    else if first then return true
    else if b = byte ',' then
      advance
      match ← peekToken with
      | none => failNext .valueEnds
      | some b => if b = byte ']' then failNext .trailingComma else return true
    else failNext .expectedListEnd

/-- Whether another entry of an object follows; its name stays unread. -/
def hasEntry (first : Bool) : Reader Bool := do
  match ← peekToken with
  | none => failNext .objectEnds
  | some b =>
    if b = byte '}' then return false
    else if first then
      if b = byte '"' then return true else failNext .expectedKey
    else if b = byte ',' then
      advance
      match ← peekToken with
      | none => failNext .valueEnds
      | some b =>
        if b = byte '"' then return true
        else if b = byte '}' then failNext .trailingComma
        else failNext .expectedKey
    else failNext .expectedObjectEnd

/-- Read the colon behind a name. -/
def colon : Reader Unit := do
  match ← peekToken with
  | none => failNext .objectEnds
  | some b => if b = byte ':' then advance else failNext .expectedColon

/-- Read a name. -/
def entryName : Reader String := do
  advance
  restOfString

/-- Read the bracket that closes a list. -/
def closeList : Reader Unit := do
  match ← peekToken with
  | none => failNext .listEnds
  | some b =>
    if b = byte ']' then advance
    else if b = byte ',' then
      advance
      if (← peekToken) = some (byte ']') then failNext .trailingComma
      else failNext .trailingCharacters
    else failNext .trailingCharacters

/-- Read the bracket that closes an object. -/
def closeObject : Reader Unit := do
  match ← peekToken with
  | none => failNext .objectEnds
  | some b =>
    if b = byte '}' then advance
    else if b = byte ',' then failNext .trailingComma
    else failNext .trailingCharacters

/-- Read the elements of a list; each round reads at least one byte. -/
def elements (element : Reader α) : Nat → Bool → Reader (List α)
  | 0, _ => failNext .listEnds
  | rounds + 1, first => do
    if ← hasElement first then
      let head ← element
      let tail ← elements element rounds false
      return head :: tail
    else return []

/-- Read the entries of an object and pass each to `entry` with the state so far. -/
def entries (entry : String → σ → Reader σ) : Nat → Bool → σ → Reader σ
  | 0, _, _ => failNext .objectEnds
  | rounds + 1, first, state => do
    if ← hasEntry first then
      let name ← entryName
      let state ← entry name state
      entries entry rounds false state
    else return state

/-- Read a list from its bracket on, unless too many are open. -/
def list (depth : Nat) (contents : Nat → Reader α) : Reader α :=
  match depth with
  | 0 => failNext .tooDeep
  | depth + 1 => do
    advance
    closing (contents depth) closeList

/-- Read an object from its bracket on, unless too many are open. -/
def object (depth : Nat) (contents : Nat → Reader α) : Reader α :=
  match depth with
  | 0 => failNext .tooDeep
  | depth + 1 => do
    advance
    closing (contents depth) closeObject

/-- Read the byte that a value starts with. -/
def startOfValue : Reader UInt8 := do
  match ← peekToken with
  | none => failNext .valueEnds
  | some b => return b

/-- Read a value that is neither a list nor an object and starts with the given byte. -/
def scalar (b : UInt8) : Reader Value :=
  if b = byte 'n' then do
    advance
    restOfWord "ull".toList
    return .null
  else if b = byte 't' then do
    advance
    restOfWord "rue".toList
    return .bool true
  else if b = byte 'f' then do
    advance
    restOfWord "alse".toList
    return .bool false
  else if b = byte '"' then do
    advance
    return .string (← restOfString)
  else if startsNumber b then Value.number <$> number b
  else failNext .expectedValue

/-- Read a value in which at most `depth` brackets are open at a time. -/
def value (depth : Nat) : Reader Value := do
  let b ← startOfValue
  let rounds := (← left).length + 1
  if b = byte '[' then
    match depth with
    | 0 => failNext .tooDeep
    | depth + 1 =>
      advance
      Value.array <$> closing (elements (value depth) rounds true) closeList
  else if b = byte '{' then
    match depth with
    | 0 => failNext .tooDeep
    | depth + 1 =>
      advance
      let entry (name : String) (before : List (String × Value)) :
          Reader (List (String × Value)) := do
        colon
        let value ← value depth
        return (name, value) :: before
      Value.object <$> List.reverse <$> closing (entries entry rounds true []) closeObject
  else scalar b

/-! ## Skipping -/

/-- A bracket that is open while values are skipped. -/
inductive Bracket where
  | list
  | object
deriving DecidableEq, Repr

/-- Skip a number from behind its sign. -/
def skipNumber : Reader Unit := do
  match (← next?).map digit? with
  | some (some first) =>
    if first = 0 ∧ (← peek?).any isDigitByte then failNext .invalidNumber
    else
      let _ ← digits
      if (← peek?) = some (byte '.') then
        advance
        if (← digits) = [] then failNext .invalidNumber
      let b ← peek?
      if b = some (byte 'e') ∨ b = some (byte 'E') then
        advance
        let sign ← peek?
        if sign = some (byte '+') ∨ sign = some (byte '-') then advance
        if (← next?).any isDigitByte then
          let _ ← digits
        else failHere .invalidNumber
  | _ => failHere .invalidNumber

/-- Skip a string from behind its first quote; each round reads at least one byte. -/
def skipString : Nat → Reader Unit
  | 0 => failHere .stringEnds
  | rounds + 1 => do
    match ← peek? with
    | none => failHere .stringEnds
    | some b =>
      if b = byte '"' then advance
      else if b = byte '\\' then
        advance
        match ← next? with
        | none => failHere .stringEnds
        | some b =>
          if b = byte 'u' then
            let _ ← fourHexDigits
            skipString rounds
          else if (simpleEscape? b).isSome then skipString rounds
          else failHere .invalidEscape
      else if b < 0x20 then failHere .controlCharacter
      else
        advance
        skipString rounds

/-- Skip a value that is neither a list nor an object and starts with the given byte. -/
def skipScalar (b : UInt8) : Reader Unit :=
  if b = byte 'n' then do
    advance
    restOfWord "ull".toList
  else if b = byte 't' then do
    advance
    restOfWord "rue".toList
  else if b = byte 'f' then do
    advance
    restOfWord "alse".toList
  else if b = byte '-' then do
    advance
    skipNumber
  else if isDigitByte b then skipNumber
  else if b = byte '"' then do
    advance
    skipString ((← left).length + 1)
  else failNext .expectedValue

/-- Close brackets, the innermost first, up to the comma before another value; gives the brackets
that are open there. -/
def closeBrackets : Bool → List Bracket → Reader (List Bracket)
  | _, [] => pure []
  | comma, bracket :: outer => do
    match ← peekToken, bracket with
    | none, .list => failNext .listEnds
    | none, .object => failNext .objectEnds
    | some b, bracket =>
      if comma ∧ b = byte ',' then
        advance
        return bracket :: outer
      else if (b = byte ']' ∧ bracket = .list) ∨ (b = byte '}' ∧ bracket = .object) then
        advance
        closeBrackets true outer
      else if comma then
        failNext (if bracket = .list then .expectedListEnd else .expectedObjectEnd)
      else return bracket :: outer

/-- Skip the name before a value and its colon. -/
def skipName : Reader Unit := do
  match ← peekToken with
  | none => failNext .objectEnds
  | some b =>
    if b = byte '"' then
      advance
      skipString ((← left).length + 1)
      colon
    else failNext .expectedKey

/-- Skip values until all brackets are closed; each round reads at least one byte. -/
def skipWithin : Nat → List Bracket → Reader Unit
  | 0, _ => failNext .valueEnds
  | rounds + 1, open_ => do
    let b ← startOfValue
    let bracket? : Option Bracket :=
      if b = byte '[' then some .list else if b = byte '{' then some .object else none
    let brackets ← match bracket? with
      | some bracket => do
        advance
        closeBrackets false (bracket :: open_)
      | none => do
        skipScalar b
        closeBrackets true open_
    match brackets with
    | [] => pure ()
    | .list :: _ => skipWithin rounds brackets
    | .object :: _ => do
      skipName
      skipWithin rounds brackets

/-- Skip a value. -/
def skip : Reader Unit := do
  skipWithin ((← left).length + 1) []

/-! ## Whole inputs -/

/-- Read the whole of an input. -/
def readAll (read : Reader α) (input : Bytes) : Except Fault α :=
  let whole : Reader α := do
    let a ← read
    match ← peekToken with
    | none => return a
    | some _ => failNext .trailingCharacters
  (whole input).1

/-- Read an input as one value. -/
def parse (input : Bytes) : Except Fault Value :=
  readAll (value depthLimit) input

end Harvest.Json

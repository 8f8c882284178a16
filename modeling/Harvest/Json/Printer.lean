import Harvest.Json.Value

/-!
# Writing JSON

Two ways to write a value: on one line, and with every entry on a line of its own.
-/

namespace Harvest.Json

/-- A character between the quotes of a string. -/
def escapeChar (c : Char) : List Char :=
  if c = '"' then ['\\', '"']
  else if c = '\\' then ['\\', '\\']
  else if c = '\n' then ['\\', 'n']
  else if c = '\r' then ['\\', 'r']
  else if c = '\t' then ['\\', 't']
  else if c = '\x08' then ['\\', 'b']
  else if c = '\x0c' then ['\\', 'f']
  else if c.toNat < 0x20 then
    ['\\', 'u', '0', '0', Nat.digitChar (c.toNat / 16), Nat.digitChar (c.toNat % 16)]
  else [c]

/-- A string with its quotes. -/
def stringChars (s : String) : List Char :=
  '"' :: s.toList.flatMap escapeChar ++ ['"']

/-- A line break and the indentation of a level. -/
def lineBreak (level : Nat) : List Char := '\n' :: List.replicate (2 * level) ' '

mutual

/-- A value with every entry on a line of its own, from the given level on. -/
def Value.prettyChars (level : Nat) : Value → List Char
  | .null => "null".toList
  | .bool b => (toString b).toList
  | .number n => n.text.toList
  | .string s => stringChars s
  | .array [] => ['[', ']']
  | .array (v :: vs) =>
    '[' :: lineBreak (level + 1) ++ v.prettyChars (level + 1) ++ prettyElements (level + 1) vs
      ++ lineBreak level ++ [']']
  | .object [] => ['\x7b', '\x7d']
  | .object ((name, v) :: es) =>
    '\x7b' :: lineBreak (level + 1) ++ stringChars name ++ ':' :: ' ' :: v.prettyChars (level + 1)
      ++ prettyEntries (level + 1) es ++ lineBreak level ++ ['\x7d']

/-- The elements behind the first one. -/
def prettyElements (level : Nat) : List Value → List Char
  | [] => []
  | v :: vs => ',' :: lineBreak level ++ v.prettyChars level ++ prettyElements level vs

/-- The entries behind the first one. -/
def prettyEntries (level : Nat) : List (String × Value) → List Char
  | [] => []
  | (name, v) :: es =>
    ',' :: lineBreak level ++ stringChars name ++ ':' :: ' ' :: v.prettyChars level
      ++ prettyEntries level es

end

/-- A value with every entry on a line of its own. -/
def Value.pretty (v : Value) : String := String.ofList (v.prettyChars 0)

mutual

/-- A value on one line. -/
def Value.compactChars : Value → List Char
  | .null => "null".toList
  | .bool b => (toString b).toList
  | .number n => n.text.toList
  | .string s => stringChars s
  | .array vs => '[' :: compactElements vs ++ [']']
  | .object es => '\x7b' :: compactEntries es ++ ['\x7d']

/-- Elements with commas between them. -/
def compactElements : List Value → List Char
  | [] => []
  | [v] => v.compactChars
  | v :: w :: vs => v.compactChars ++ ',' :: compactElements (w :: vs)

/-- Entries with commas between them. -/
def compactEntries : List (String × Value) → List Char
  | [] => []
  | [(name, v)] => stringChars name ++ ':' :: v.compactChars
  | (name, v) :: e :: es =>
    stringChars name ++ ':' :: v.compactChars ++ ',' :: compactEntries (e :: es)

end

/-- A value on one line. -/
def Value.compact (v : Value) : String := String.ofList v.compactChars

end Harvest.Json

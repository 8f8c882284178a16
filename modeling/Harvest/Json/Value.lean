import Harvest.Arithmetic
import Harvest.Binary64.Shortest
import Harvest.Text.Quoted

/-!
# JSON values

Values as they are read: whole numbers of at most 64 bits are exact, any other number is the
binary64 value next to it, and an object keeps its entries in order, repeated names included.
-/

namespace Harvest.Json

/-- A number. -/
inductive Number where
  /-- A whole number from 0 to `2 ^ 64 - 1`. -/
  | nat (n : Nat)
  /-- The whole number `-n`, for `n` from 1 to `2 ^ 63`. -/
  | negative (n : Nat)
  | float (negative : Bool) (magnitude : Binary64)
deriving DecidableEq, Repr, Inhabited

/-- A value. -/
inductive Value where
  | null
  | bool (b : Bool)
  | number (n : Number)
  | string (s : String)
  | array (elements : List Value)
  | object (entries : List (String × Value))
deriving Repr, Inhabited

mutual

/-- Whether two values are the same. -/
def Value.isSame : Value → Value → Bool
  | .null, .null => true
  | .bool a, .bool b => a == b
  | .number a, .number b => a == b
  | .string a, .string b => a == b
  | .array as, .array bs => areSame as bs
  | .object as, .object bs => areSameEntries as bs
  | _, _ => false

/-- Whether two lists hold the same values. -/
def areSame : List Value → List Value → Bool
  | [], [] => true
  | a :: as, b :: bs => a.isSame b && areSame as bs
  | _, _ => false

/-- Whether two objects hold the same entries in the same order. -/
def areSameEntries : List (String × Value) → List (String × Value) → Bool
  | [], [] => true
  | (name, a) :: as, (name', b) :: bs => name == name' && a.isSame b && areSameEntries as bs
  | _, _ => false

end

mutual

/-- Values are told apart. -/
theorem Value.isSame_iff (a b : Value) : a.isSame b = true ↔ a = b := by
  cases a <;> cases b <;> simp [Value.isSame, areSame_iff, areSameEntries_iff]

private theorem areSame_iff (as bs : List Value) : areSame as bs = true ↔ as = bs := by
  cases as <;> cases bs <;> simp [areSame, Value.isSame_iff, areSame_iff]

private theorem areSameEntries_iff (as bs : List (String × Value)) :
    areSameEntries as bs = true ↔ as = bs := by
  cases as <;> cases bs <;>
    simp [areSameEntries, Value.isSame_iff, areSameEntries_iff, Prod.ext_iff]

end

instance : DecidableEq Value := fun a b ↦ decidable_of_iff _ (a.isSame_iff b)

/-- The text of a number. -/
def Number.text : Number → String
  | .nat n => toString n
  | .negative n => "-" ++ toString n
  | .float true m => "-" ++ m.text
  | .float false m => m.text

/-- What a message says of a number that it does not expect. -/
def Number.described : Number → String
  | .float s m => "floating point `" ++ (Number.float s m).text ++ "`"
  | n => "integer `" ++ n.text ++ "`"

/-- What a message says of a value that it does not expect. -/
def Value.described : Value → String
  | .null => "null"
  | .bool b => "boolean `" ++ toString b ++ "`"
  | .number n => n.described
  | .string s => "string " ++ Text.quoted s
  | .array _ => "sequence"
  | .object _ => "map"

/-- The values that an object holds under a name, in order. -/
def Value.all (name : String) : Value → List Value
  | .object entries => (entries.filter (·.1 == name)).map (·.2)
  | _ => []

/-- The value that an object holds under a name, if it holds just one. -/
def Value.only? (v : Value) (name : String) : Option Value :=
  match v.all name with
  | [value] => some value
  | _ => none

/-- The text of a string. -/
def Value.string? : Value → Option String
  | .string s => some s
  | _ => none

end Harvest.Json

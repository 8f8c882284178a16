import Harvest.Proofs.Json.Entries
import Harvest.Proofs.Json.Records

/-!
# Values that may be missing

Where a value may be missing, `null` may stand for it, and an object may have no entry with its
name. What starts with the letter of `null` is that or no value.
-/

namespace Harvest.Json

open Text (Bytes)
open Reader

variable {α : Type} {read : Nat → Reader α} {f : Value → Option α} {b : UInt8} {v : Value}
  {input start rest : Bytes} {depth : Nat}

/-! ## Null -/

/-- What is read where `null` may stand. -/
def Value.optional? (f : Value → Option α) : Value → Option (Option α)
  | .null => some none
  | v => (f v).map some

private theorem Value.optional?_of_ne_null (h : v ≠ .null) : v.optional? f = (f v).map some := by
  cases v with
  | null => exact absurd rfl h
  | bool | number | string | array | object => rfl

/-- What starts with the letter of `null` is that. -/
theorem scalar_null (h : scalar (byte 'n') (byte 'n' :: start) = (.ok v, rest)) :
    v = .null ∧ restOfWord "ull".toList start = (.ok (), rest) := by
  rw [scalar, if_pos rfl, advance_bind_cons] at h
  obtain ⟨_, more, hword, h⟩ := bind_eq_ok h
  cases h
  exact ⟨rfl, hword⟩

/-- A value that starts with no bracket is a scalar. -/
theorem scalar_of_value (hinput : input.dropWhile isBlankByte = b :: start)
    (hb : opened b = none) (h : value depth input = (.ok v, rest)) :
    scalar b (b :: start) = (.ok v, rest) := by
  cases hasValue_of_value h with
  | array hinput' | object hinput' =>
    rw [hinput] at hinput'
    cases hinput'
    cases hb
  | scalar hinput' _ hscalar =>
    rw [hinput] at hinput'
    cases hinput'
    exact hscalar

/-- What starts otherwise is not. -/
theorem ne_null_of_value (hinput : input.dropWhile isBlankByte = b :: start)
    (hb : b ≠ byte 'n') (h : value depth input = (.ok v, rest)) : v ≠ .null := by
  cases hasValue_of_value h with
  | array => simp
  | object => simp
  | scalar hinput' _ hscalar =>
    rw [hinput] at hinput'
    cases hinput'
    exact scalar_gives (P := (· ≠ .null)) (fun heq ↦ absurd heq hb) (by simp) (by simp) (by simp)
      _ _ _ hscalar

private theorem value_dropWhile (depth : Nat) (input : Bytes) :
    value depth (input.dropWhile isBlankByte) = value depth input := by
  rw [value]
  exact startOfValue_bind_dropWhile _ input

/-- A value starts with a token, which is looked at without taking it. -/
theorem exists_token (h : value depth input = (.ok v, rest)) :
    ∃ b start, input.dropWhile isBlankByte = b :: start ∧
      peekToken input = (.ok (some b), b :: start) := by
  have hpeek : peekToken input = (.ok (input.dropWhile isBlankByte).head?,
      input.dropWhile isBlankByte) := rfl
  cases hasValue_of_value h with
  | array hinput | object hinput | scalar hinput =>
    rw [hinput] at hpeek
    exact ⟨_, _, hinput, hpeek⟩

/-- A value or `null` is read as the value says. -/
theorem Decodes.optional (h : Decodes read f) :
    Decodes (fun depth ↦ optional (read depth)) (Value.optional? f) := by
  intro depth input v rest hv
  obtain ⟨b, start, hinput, hpeek⟩ := exists_token hv
  have hne : b ≠ byte 'n' → v ≠ .null := fun hb ↦ ne_null_of_value hinput hb hv
  rw [← value_dropWhile, hinput] at hv
  refine .of_ok hpeek ?_
  by_cases hb : b = byte 'n'
  · subst hb
    obtain ⟨rfl, hword⟩ := scalar_null (scalar_of_value rfl rfl hv)
    rw [if_pos rfl]
    exact .of_ok (advance_apply _ _) (.of_ok hword rfl)
  · rw [if_neg (by simpa using hb), Value.optional?_of_ne_null (hne hb)]
    exact (h depth _ v rest hv).map some

/-- A string is read where `null` may stand. -/
theorem gets_optional_string (text : String) :
    Gets (optional string) (stringChars text) (some text) := by
  intro blanks rest hblanks hparted
  have hread := gets_string text [] rest .nil hparted
  obtain ⟨bytes, hbytes⟩ := encode_stringChars_append text rest
  rw [List.nil_append, hbytes] at hread
  rw [hbytes, optional, bind_of_ok (peekToken_append hblanks rfl), if_neg (by decide)]
  exact bind_of_ok hread _

/-! ## Fields that may be missing -/

/-- What a field takes from the values under its name: what `f` makes of the only one, unless it
has been set before. -/
def takeOnly (f : Value → Option α) : Option α → List Value → Option (Option α)
  | state, [] => some state
  | none, [v] => (f v).map some
  | _, _ :: _ => none

/-- Where no value is left, the one that was taken stays. -/
theorem takeOnly_nil (state : Option α) : takeOnly f state [] = some state := by
  cases state <;> rfl

/-- A second value is one too many. -/
theorem takeOnly_some_cons (a : α) (v : Value) (vs : List Value) :
    takeOnly f (some a) (v :: vs) = none := by
  cases vs <;> rfl

/-- The first value is taken if it can be read. -/
theorem takeOnly_none_cons (v : Value) (vs : List Value) :
    takeOnly f none (v :: vs) = (f v).bind fun a ↦ takeOnly f (some a) vs := by
  cases vs with
  | nil => cases h : f v <;> simp [takeOnly, h]
  | cons w vs => cases h : f v <;> simp [takeOnly]

end Harvest.Json

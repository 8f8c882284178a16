import Mathlib.Data.List.TakeWhile
import Harvest.Proofs.Json.Results

/-!
# Tokens that are skipped

Skipping a string, a number or a word checks no more than its grammar, and keeps nothing of it.
Where one is read, its grammar is that of what skipping passes over, so both come to the same place.
-/

namespace Harvest.Json

open Text (Bytes)
open Reader

variable {α β : Type} {input rest more bytes head : Bytes} {b : UInt8} {rounds n : Nat}
  {exponent : Int} {negative : Bool} {number : Number} {s : String} {v v' : Value}

/-! ## Strings -/

private theorem fourHexDigits_eq_ok (h : fourHexDigits input = (.ok n, rest)) :
    ∃ a b c d, input = a :: b :: c :: d :: rest := by
  match input with
  | [] => cases h
  | [_] => cases h
  | [_, _] => cases h
  | [_, _, _] => cases h
  | a :: b :: c :: d :: input =>
    have hsame : (fourHexDigits (a :: b :: c :: d :: input)).2 = input := by
      simp only [fourHexDigits, left_bind, goto_bind]
      cases hexDigit? a <;> cases hexDigit? b <;> cases hexDigit? c <;> cases hexDigit? d <;> rfl
    rw [h] at hsame
    exact ⟨a, b, c, d, by rw [← hsame]⟩

private theorem expectInPair_eq_ok {c : Char} (h : expectInPair c input = (.ok (), rest)) :
    input = byte c :: rest := by
  cases input with
  | nil => cases h
  | cons b input =>
    simp only [expectInPair, peek?_bind, List.head?_cons, advance_bind_cons] at h
    split at h
    · next hb =>
      rw [pure_apply, Prod.mk.injEq] at h
      rw [hb, h.2]
    · cases h

/-- A code point is four digits, or a pair of units with the mark of an escape between them. -/
theorem codePoint_eq_ok {c : Char} (h : codePoint input = (.ok c, rest)) :
    ∃ unit more, fourHexDigits input = (.ok unit, more) ∧
      (more = rest ∨ ∃ low behind, more = byte '\\' :: byte 'u' :: behind ∧
        fourHexDigits behind = (.ok low, rest)) := by
  obtain ⟨unit, more, hunit, h⟩ := bind_eq_ok h
  refine ⟨unit, more, hunit, ?_⟩
  split at h
  · cases h
  split at h
  · rw [pure_apply, Prod.mk.injEq] at h
    exact .inl h.2
  · obtain ⟨_, _, hmark, h⟩ := bind_eq_ok h
    obtain ⟨_, behind, hletter, h⟩ := bind_eq_ok h
    obtain ⟨low, _, hlow, h⟩ := bind_eq_ok h
    split at h
    · rw [pure_apply, Prod.mk.injEq] at h
      rw [expectInPair_eq_ok hmark, expectInPair_eq_ok hletter]
      exact .inr ⟨low, behind, rfl, h.2 ▸ hlow⟩
    · cases h

/-- Four digits behind the mark of an escape are skipped in one round. -/
theorem skipString_unit (h : fourHexDigits input = (.ok n, rest)) :
    skipString (rounds + 1) (byte '\\' :: byte 'u' :: input) = skipString rounds rest := by
  have hquote : byte '\\' ≠ byte '"' := by decide
  simp only [skipString, peek?_bind, List.head?_cons, if_neg hquote, if_true, advance_bind_cons,
    next?_bind_cons]
  rw [bind_of_ok h]

/-- An escape is skipped in one round or, where it is a pair of units, in two. -/
theorem skipString_escape (h : escapeSequence input = (.ok head, rest))
    (hrounds : input.length < rounds) : rest.length ≤ input.length ∧
      ∃ left, rest.length < left ∧
        skipString (rounds + 1) (byte '\\' :: input) = skipString left rest := by
  cases input with
  | nil => cases h
  | cons b input =>
    rw [List.length_cons] at hrounds
    simp only [escapeSequence, next?_bind_cons] at h
    split at h
    · next hb =>
      subst hb
      obtain ⟨c, more, hcode, h⟩ := bind_eq_ok h
      obtain rfl : more = rest := (Prod.mk.inj h).2
      obtain ⟨unit, behind, hunit, rfl | ⟨low, pair, rfl, hlow⟩⟩ := codePoint_eq_ok hcode
      · obtain ⟨_, _, _, _, rfl⟩ := fourHexDigits_eq_ok hunit
        simp only [List.length_cons] at hrounds ⊢
        exact ⟨by omega, rounds, by omega, skipString_unit hunit⟩
      · obtain ⟨_, _, _, _, rfl⟩ := fourHexDigits_eq_ok hunit
        obtain ⟨_, _, _, _, rfl⟩ := fourHexDigits_eq_ok hlow
        simp only [List.length_cons] at hrounds ⊢
        obtain ⟨left, rfl⟩ := Nat.exists_eq_add_of_lt (show 0 < rounds by omega)
        refine ⟨by omega, left, by omega, ?_⟩
        rw [skipString_unit hunit, Nat.zero_add, skipString_unit hlow]
    · next hb =>
      cases hsimple : simpleEscape? b with
      | none =>
        rw [hsimple] at h
        cases h
      | some c =>
        rw [hsimple] at h
        obtain rfl : input = rest := (Prod.mk.inj h).2
        have hquote : byte '\\' ≠ byte '"' := by decide
        refine ⟨Nat.le_succ _, rounds, by omega, ?_⟩
        simp only [skipString, peek?_bind, List.head?_cons, if_neg hquote, if_true,
          advance_bind_cons, next?_bind_cons, if_neg hb, hsimple, Option.isSome_some]

private theorem skipString_quote (rest : Bytes) :
    skipString (rounds + 1) (byte '"' :: rest) = (.ok (), rest) := rfl

private theorem skipString_plain (h : IsPlain b) (input : Bytes) :
    skipString (rounds + 1) (b :: input) = skipString rounds input := by
  simp only [skipString, peek?_bind, List.head?_cons, if_neg h.ne_quote, if_neg h.ne_backslash,
    if_neg h.not_control, advance_bind_cons]

/-- The bytes of a string are skipped with its last quote. -/
theorem skipString_of_stringBytes (h : stringBytes n input = (.ok bytes, rest))
    (hrounds : input.length < rounds) :
    skipString rounds input = (.ok (), rest.tail) ∧ rest.length ≤ input.length := by
  induction n generalizing input bytes rounds with
  | zero => cases h
  | succ n ih =>
    obtain ⟨rounds, rfl⟩ := Nat.exists_eq_succ_of_ne_zero (Nat.ne_zero_of_lt hrounds)
    cases input with
    | nil => cases h
    | cons b input =>
      have hlt : input.length < rounds := Nat.lt_of_succ_lt_succ hrounds
      simp only [stringBytes, peek?_bind, List.head?_cons] at h
      split at h
      · next hquote =>
        obtain rfl : b :: input = rest := (Prod.mk.inj h).2
        rw [hquote, skipString_quote]
        exact ⟨rfl, Nat.le_refl _⟩
      rw [advance_bind_cons] at h
      split at h
      · next hquote hbackslash =>
        obtain ⟨head, more, hhead, h⟩ := bind_eq_ok h
        obtain ⟨tail, behind, htail, h⟩ := bind_eq_ok h
        obtain rfl : behind = rest := (Prod.mk.inj h).2
        obtain ⟨hle, left, hleft, hskip⟩ := skipString_escape hhead hlt
        obtain ⟨hrest, hle'⟩ := ih htail hleft
        rw [hbackslash, hskip, hrest]
        exact ⟨rfl, Nat.le_succ_of_le (Nat.le_trans hle' hle)⟩
      split at h
      · cases h
      · next hquote hbackslash hcontrol =>
        obtain ⟨tail, behind, htail, h⟩ := bind_eq_ok h
        obtain rfl : behind = rest := (Prod.mk.inj h).2
        obtain ⟨hskip, hle⟩ := ih htail hlt
        rw [skipString_plain ⟨hquote, hbackslash, hcontrol⟩, hskip]
        exact ⟨rfl, Nat.le_succ_of_le hle⟩

/-- A string that is read can be skipped. -/
theorem skipString_of_restOfString (h : restOfString input = (.ok s, rest))
    (hrounds : input.length < rounds) :
    skipString rounds input = (.ok (), rest) ∧ rest.length ≤ input.length := by
  rw [restOfString, left_bind] at h
  obtain ⟨bytes, more, hbytes, h⟩ := bind_eq_ok h
  obtain ⟨hskip, hle⟩ := skipString_of_stringBytes hbytes hrounds
  cases hdecode : Text.decode bytes with
  | none =>
    rw [hdecode] at h
    cases h
  | some cs =>
    rw [hdecode] at h
    obtain rfl : more.tail = rest := (Prod.mk.inj h).2
    refine ⟨hskip, Nat.le_trans ?_ hle⟩
    rw [List.length_tail]
    exact Nat.sub_le _ _

/-! ## Numbers -/

/-- The bytes behind the sign of an exponent. -/
def behindSign (input : Bytes) : Bytes :=
  if input.head? = some (byte '+') ∨ input.head? = some (byte '-') then input.tail else input

/-- An exponent from behind its letter, with what follows it: a digit at least. -/
def IsExponent (input rest : Bytes) : Prop :=
  ∃ first more, behindSign input = first :: more ∧ isDigitByte first = true ∧
    more.dropWhile isDigitByte = rest

/-- The end of a number, with what follows it: an exponent, if there is one. -/
inductive IsEnd : Bytes → Bytes → Prop
  | none {rest : Bytes} (h : rest.head? ≠ some (byte 'e')) (h' : rest.head? ≠ some (byte 'E')) :
      IsEnd rest rest
  | exponent {b : UInt8} {input rest : Bytes} (hb : b = byte 'e' ∨ b = byte 'E')
      (h : IsExponent input rest) : IsEnd (b :: input) rest

/-- A number from behind its sign, with what follows it: digits, of which no 0 is first unless it is
the only one, a fraction if there is one, and the end. -/
inductive IsNumber : Bytes → Bytes → Prop
  | whole {first : UInt8} {more rest : Bytes} (hfirst : isDigitByte first = true)
      (hzero : ¬(digit? first = some 0 ∧ more.head?.any isDigitByte = true))
      (hpoint : (more.dropWhile isDigitByte).head? ≠ some (byte '.'))
      (h : IsEnd (more.dropWhile isDigitByte) rest) : IsNumber (first :: more) rest
  | fraction {first : UInt8} {more fraction rest : Bytes} (hfirst : isDigitByte first = true)
      (hzero : ¬(digit? first = some 0 ∧ more.head?.any isDigitByte = true))
      (hpoint : more.dropWhile isDigitByte = byte '.' :: fraction)
      (hdigit : fraction.head?.any isDigitByte = true)
      (h : IsEnd (fraction.dropWhile isDigitByte) rest) : IsNumber (first :: more) rest

private theorem floatNumber_eq_ok (h : floatNumber negative n exponent input = (.ok number, rest)) :
    input = rest := by
  rw [floatNumber] at h
  cases hscaled : scaled n exponent with
  | none =>
    rw [hscaled] at h
    cases h
  | some magnitude =>
    rw [hscaled] at h
    exact (Prod.mk.inj h).2

/-- A sign is dropped where there is one. -/
theorem behindSign_bind (next : Unit → Reader α) (input : Bytes) :
    (if input.head? = some (byte '+') ∨ input.head? = some (byte '-') then advance >>= next
      else next ()) input = next () (behindSign input) := by
  unfold behindSign
  split <;> rfl

private theorem exponentPart_eq_ok
    (h : exponentPart negative n exponent input = (.ok number, rest)) :
    IsExponent input rest := by
  rw [exponentPart, peek?_bind] at h
  replace h := (behindSign_bind _ input).symm.trans h
  unfold IsExponent
  generalize behindSign input = input at h ⊢
  cases input with
  | nil => cases h
  | cons first more =>
    refine ⟨first, more, rfl, ?_⟩
    cases hfirst : digit? first with
    | none =>
      simp only [next?_bind_cons, Option.map_some, hfirst] at h
      cases h
    | some digit =>
      refine ⟨by rw [isDigitByte, hfirst, Option.isSome_some], ?_⟩
      simp only [next?_bind_cons, Option.map_some, hfirst, left_bind] at h
      obtain ⟨ds, behind, hdigits, h⟩ := bind_eq_ok h
      obtain rfl : more.dropWhile isDigitByte = behind := (Prod.mk.inj hdigits).2
      generalize appendDigits greatestExponent digit ds = parts at h
      obtain ⟨size, _ | _⟩ := parts
      · exact floatNumber_eq_ok h
      · dsimp only at h
        split at h
        · cases h
        · exact (Prod.mk.inj h).2

/-- An exponent follows just where its letter does. -/
theorem isEnd_of_marked {input rest : Bytes}
    (h : input.head? = some (byte 'e') ∨ input.head? = some (byte 'E') → IsExponent input.tail rest)
    (h' : ¬(input.head? = some (byte 'e') ∨ input.head? = some (byte 'E')) → input = rest) :
    IsEnd input rest := by
  by_cases hmark : input.head? = some (byte 'e') ∨ input.head? = some (byte 'E')
  · cases input with
    | nil => simp at hmark
    | cons b input => exact .exponent (by simpa using hmark) (h hmark)
  · obtain rfl := h' hmark
    obtain ⟨hsmall, hcapital⟩ := not_or.mp hmark
    exact .none hsmall hcapital

private theorem exponentOrEnd_eq_ok
    (h : exponentOrEnd negative n exponent input = (.ok number, rest)) :
    IsEnd input rest := by
  rw [exponentOrEnd, peek?_bind] at h
  refine isEnd_of_marked (fun hmark ↦ ?_) (fun hmark ↦ ?_)
  · rw [if_pos hmark] at h
    exact exponentPart_eq_ok h
  · rw [if_neg hmark] at h
    exact floatNumber_eq_ok h

/-- Digits are read where one comes next. -/
theorem filterMap_takeWhile_ne_nil_iff :
    (input.takeWhile isDigitByte).filterMap digit? ≠ [] ↔ input.head?.any isDigitByte = true := by
  cases input with
  | nil => simp
  | cons b input =>
    rw [List.head?_cons, Option.any_some]
    cases hdigit : digit? b with
    | none =>
      have hb : isDigitByte b = false := by rw [isDigitByte, hdigit, Option.isSome_none]
      simp [hb]
    | some digit =>
      have hb : isDigitByte b = true := by rw [isDigitByte, hdigit, Option.isSome_some]
      simp [hb, hdigit]

private theorem fractionPart_eq_ok
    (h : fractionPart negative n exponent input = (.ok number, rest)) :
    input.head?.any isDigitByte = true ∧ IsEnd (input.dropWhile isDigitByte) rest := by
  obtain ⟨ds, behind, hdigits, h⟩ := bind_eq_ok h
  obtain ⟨hds, rfl⟩ := Prod.mk.inj hdigits
  obtain rfl := Except.ok.inj hds
  cases hsome : (input.takeWhile isDigitByte).filterMap digit? with
  | nil =>
    rw [hsome] at h
    obtain ⟨b, more, -, h⟩ := bind_eq_ok h
    cases b <;> cases h
  | cons d ds =>
    refine ⟨filterMap_takeWhile_ne_nil_iff.mp (by simp [hsome]), ?_⟩
    rw [hsome] at h
    exact exponentOrEnd_eq_ok h

private theorem numberBehindSign_eq_ok (h : numberBehindSign negative input = (.ok number, rest)) :
    IsNumber input rest := by
  cases input with
  | nil => cases h
  | cons first more =>
    cases hfirst : digit? first with
    | none =>
      simp only [numberBehindSign, next?_bind_cons, Option.map_some, hfirst] at h
      cases h
    | some digit =>
      simp only [numberBehindSign, next?_bind_cons, Option.map_some, hfirst, peek?_bind] at h
      split at h
      · cases h
      · next hzero =>
        have hdigit : isDigitByte first = true := by rw [isDigitByte, hfirst, Option.isSome_some]
        have hzero' : ¬(digit? first = some 0 ∧ more.head?.any isDigitByte = true) := by
          simpa [hfirst] using hzero
        obtain ⟨ds, behind, hdigits, h⟩ := bind_eq_ok h
        obtain rfl : more.dropWhile isDigitByte = behind := (Prod.mk.inj hdigits).2
        generalize appendDigits greatestNat digit ds = parts at h
        obtain ⟨n, others⟩ := parts
        simp only [peek?_bind] at h
        split at h
        · next hpoint =>
          obtain ⟨fraction, hbehind⟩ := List.head?_eq_some_iff.mp hpoint
          rw [hbehind, advance_bind_cons] at h
          obtain ⟨hany, hend⟩ := fractionPart_eq_ok h
          exact .fraction hdigit hzero' hbehind hany hend
        · next hpoint =>
          refine .whole hdigit hzero' hpoint (isEnd_of_marked (fun hmark ↦ ?_) (fun hmark ↦ ?_))
          · rw [if_pos hmark] at h
            exact exponentPart_eq_ok h
          · rw [if_neg hmark] at h
            split at h
            · exact (Prod.mk.inj h).2
            · exact floatNumber_eq_ok h

private theorem number_eq_ok (h : Json.number b (b :: input) = (.ok number, rest)) :
    b = byte '-' ∧ IsNumber input rest ∨ b ≠ byte '-' ∧ IsNumber (b :: input) rest := by
  rw [Json.number] at h
  split at h
  · next hsign => exact .inl ⟨hsign, numberBehindSign_eq_ok h⟩
  · next hsign => exact .inr ⟨hsign, numberBehindSign_eq_ok h⟩

private theorem IsExponent.length_le (h : IsExponent input rest) : rest.length ≤ input.length := by
  obtain ⟨first, more, hsign, -, rfl⟩ := h
  have hlt : (behindSign input).length ≤ input.length := by
    unfold behindSign
    split
    · rw [List.length_tail]
      exact Nat.sub_le _ _
    · exact Nat.le_refl _
  rw [hsign, List.length_cons] at hlt
  have := List.length_dropWhile_le isDigitByte more
  omega

private theorem IsEnd.length_le (h : IsEnd input rest) : rest.length ≤ input.length := by
  cases h with
  | none => exact Nat.le_refl _
  | exponent _ h => exact Nat.le_succ_of_le h.length_le

private theorem IsNumber.length_lt (h : IsNumber input rest) : rest.length < input.length := by
  cases h with
  | whole _ _ _ h =>
    exact Nat.lt_succ_of_le (Nat.le_trans h.length_le (List.length_dropWhile_le _ _))
  | @fraction first more fraction _ _ _ hpoint _ h =>
    have hbehind := List.length_dropWhile_le isDigitByte more
    have hfraction := Nat.le_trans h.length_le (List.length_dropWhile_le isDigitByte fraction)
    rw [hpoint, List.length_cons] at hbehind
    rw [List.length_cons]
    omega

/-- Skip an exponent from behind its letter. -/
def skipExponent : Reader Unit := do
  let sign ← peek?
  if sign = some (byte '+') ∨ sign = some (byte '-') then advance
  if (← next?).any isDigitByte then
    let _ ← digits
  else failHere .invalidNumber

/-- Skip the exponent that may end a number. -/
def skipEnd : Reader Unit := do
  let b ← peek?
  if b = some (byte 'e') ∨ b = some (byte 'E') then
    advance
    skipExponent

private theorem digits_bind (next : List Nat → Reader β) (input : Bytes) :
    (digits >>= next) input =
      next ((input.takeWhile isDigitByte).filterMap digit?) (input.dropWhile isDigitByte) := rfl

private theorem IsExponent.skip_eq (h : IsExponent input rest) :
    skipExponent input = (.ok (), rest) := by
  obtain ⟨first, more, hsign, hdigit, rfl⟩ := h
  rw [skipExponent, peek?_bind]
  refine (behindSign_bind _ input).trans ?_
  rw [hsign]
  simp only [next?_bind_cons, Option.any_some, hdigit, if_true]
  rfl

private theorem IsEnd.skip_eq (h : IsEnd input rest) : skipEnd input = (.ok (), rest) := by
  rw [skipEnd, peek?_bind]
  cases h with
  | none hsmall hcapital => rw [if_neg (not_or.mpr ⟨hsmall, hcapital⟩), pure_apply]
  | exponent hb h =>
    rw [if_pos (by simpa using hb), advance_bind_cons, h.skip_eq]

/-- Behind its first digit a number is skipped part by part. -/
theorem skipNumber_cons {first : UInt8} (hfirst : isDigitByte first = true)
    (hzero : ¬(digit? first = some 0 ∧ more.head?.any isDigitByte = true)) :
    skipNumber (first :: more) = (do
      let behind ← peek?
      if behind = some (byte '.') then
        advance
        if (← digits) = [] then failNext .invalidNumber
      skipEnd) (more.dropWhile isDigitByte) := by
  obtain ⟨digit, hdigit⟩ := Option.isSome_iff_exists.mp hfirst
  have hzero' : ¬(digit = 0 ∧ more.head?.any isDigitByte = true) := by simpa [hdigit] using hzero
  simp only [skipNumber, next?_bind_cons, Option.map_some, hdigit, peek?_bind, if_neg hzero']
  rfl

/-- A number is skipped. -/
theorem IsNumber.skip_eq (h : IsNumber input rest) : skipNumber input = (.ok (), rest) := by
  cases h with
  | whole hfirst hzero hpoint h =>
    rw [skipNumber_cons hfirst hzero, peek?_bind, if_neg hpoint]
    exact h.skip_eq
  | fraction hfirst hzero hpoint hdigit h =>
    rw [skipNumber_cons hfirst hzero, hpoint, peek?_bind, List.head?_cons, if_pos rfl,
      advance_bind_cons, digits_bind, if_neg (filterMap_takeWhile_ne_nil_iff.mpr hdigit)]
    exact h.skip_eq

/-! ## Scalars -/

private theorem length_le_of_restOfWord {cs : List Char}
    (h : restOfWord cs input = (.ok (), rest)) : rest.length ≤ input.length := by
  induction cs generalizing input with
  | nil =>
    obtain rfl := (Prod.mk.inj h).2
    exact Nat.le_refl _
  | cons c cs ih =>
    cases input with
    | nil => cases h
    | cons b input =>
      simp only [restOfWord, next?_bind_cons] at h
      split at h
      · exact Nat.le_succ_of_le (ih h)
      · cases h

/-- The rest of a word is read where the word is skipped. -/
theorem restOfWord_of_bind {cs : List Char}
    (h : (advance >>= fun _ ↦ restOfWord cs >>= fun _ ↦ pure v) (b :: input) = (.ok v', rest)) :
    (advance >>= fun _ ↦ restOfWord cs) (b :: input) = (.ok (), rest) ∧
      rest.length ≤ input.length := by
  rw [advance_bind_cons] at h ⊢
  obtain ⟨_, more, hword, h⟩ := bind_eq_ok h
  obtain rfl := (Prod.mk.inj h).2
  exact ⟨hword, length_le_of_restOfWord hword⟩

/-- A value without brackets is skipped where it is read. -/
theorem skipScalar_of_scalar (h : scalar b (b :: input) = (.ok v, rest)) :
    skipScalar b (b :: input) = (.ok (), rest) ∧ rest.length ≤ input.length := by
  unfold scalar at h
  unfold skipScalar
  split at h
  · next hb =>
    rw [if_pos hb]
    exact restOfWord_of_bind h
  next hnull =>
  rw [if_neg hnull]
  split at h
  · next hb =>
    rw [if_pos hb]
    exact restOfWord_of_bind h
  next htrue =>
  rw [if_neg htrue]
  split at h
  · next hb =>
    rw [if_pos hb]
    exact restOfWord_of_bind h
  next hfalse =>
  rw [if_neg hfalse]
  split at h
  · next hb =>
    subst hb
    rw [advance_bind_cons] at h
    obtain ⟨s, more, hs, h⟩ := bind_eq_ok h
    obtain rfl : more = rest := (Prod.mk.inj h).2
    exact skipString_of_restOfString hs (Nat.lt_succ_self _)
  next hquote =>
  split at h
  · next hstart =>
    obtain ⟨number, more, hnumber, h⟩ := bind_eq_ok h
    obtain rfl : more = rest := (Prod.mk.inj h).2
    obtain ⟨hsign, hnumber⟩ | ⟨hsign, hnumber⟩ := number_eq_ok hnumber
    · rw [if_pos hsign, advance_bind_cons]
      exact ⟨hnumber.skip_eq, Nat.le_of_lt hnumber.length_lt⟩
    · have hdigit : isDigitByte b = true := by
        simpa [startsNumber, hsign] using hstart
      rw [if_neg hsign, if_pos hdigit]
      exact ⟨hnumber.skip_eq, Nat.le_of_lt_succ hnumber.length_lt⟩
  · cases h

end Harvest.Json

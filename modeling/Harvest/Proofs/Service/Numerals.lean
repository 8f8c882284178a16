import Harvest.Proofs.Service.Verdicts
import Harvest.Proofs.Text.Blank

/-!
# Counts in writing

A count is read off the whole of a body, but for the blanks around it: a plus sign or none, and
decimal digits whose value has 64 bits. Nothing else counts, and no number is wrapped or read in
part.
Design: `SPEC_FULL.md:252–253`.
-/

namespace Harvest

open Http (Response)

/-! ## Numerals -/

namespace Text

variable {cs : List Char} {n : Nat}

/-- Decimal digits, one at least, with a value of 64 bits; zeros may come first. -/
structure IsDigits (cs : List Char) (n : Nat) : Prop where
  ne_nil : cs ≠ []
  isDigit : ∀ c ∈ cs, c.isDigit = true
  value : Nat.ofDigitChars 10 cs 0 = n
  le : n ≤ 2 ^ 64 - 1

/-- A whole number of 64 bits in writing. -/
inductive IsNumeral : List Char → Nat → Prop
  | unsigned {cs : List Char} {n : Nat} (h : IsDigits cs n) : IsNumeral cs n
  | signed {cs : List Char} {n : Nat} (h : IsDigits cs n) : IsNumeral ('+' :: cs) n

private theorem digitsValue_eq (cs : List Char) : digitsValue cs = Nat.ofDigitChars 10 cs 0 := by
  simp only [digitsValue, Nat.ofDigitChars, Nat.mul_comm 10]

private theorem readDigits_eq_some_iff : readDigits cs = some n ↔ IsDigits cs n := by
  simp only [readDigits, digitsValue_eq, Bool.and_eq_true, decide_eq_true_eq, List.all_eq_true,
    Option.ite_none_right_eq_some, Option.some.injEq]
  constructor
  · rintro ⟨⟨hne, hdigits⟩, hlt, rfl⟩
    exact ⟨hne, hdigits, rfl, Nat.le_sub_one_of_lt hlt⟩
  · rintro ⟨hne, hdigits, rfl, hle⟩
    exact ⟨⟨hne, hdigits⟩, by omega, rfl⟩

/-- No digit is a plus sign. -/
theorem not_isDigits_plus (cs : List Char) (n : Nat) : ¬IsDigits ('+' :: cs) n := by
  intro h
  have hplus := h.isDigit '+' List.mem_cons_self
  exact absurd hplus (by decide)

/-- What is read is what is written. -/
theorem readNatural_eq_some_iff : readNatural cs = some n ↔ IsNumeral cs n := by
  constructor
  · intro h
    rw [readNatural.eq_def] at h
    split at h
    · exact .signed (readDigits_eq_some_iff.mp h)
    · exact .unsigned (readDigits_eq_some_iff.mp h)
  · intro h
    cases h with
    | signed h => exact readDigits_eq_some_iff.mpr h
    | unsigned h =>
      rw [readNatural.eq_def]
      split
      · exact absurd h (not_isDigits_plus _ n)
      · exact readDigits_eq_some_iff.mpr h

end Text

namespace Service

variable {σ : Type}

/-! ## Counts -/

private theorem readCount_eq_ok_iff {body : String} {within : List Char} {n : Nat}
    (h : Text.Strips body.toList within) : readCount body = .ok n ↔ Text.IsNumeral within n := by
  rw [readCount, h.trimChars_eq, ← Text.readNatural_eq_some_iff]
  cases Text.readNatural within <;> simp

/-- What is no numeral is shown without the blanks around it. -/
theorem readCount_of_not_isNumeral {body : String} {within : List Char}
    (h : Text.Strips body.toList within) (hnone : ∀ n, ¬Text.IsNumeral within n) :
    readCount body = .error (.invalidCount (String.ofList within)) := by
  rw [readCount, h.trimChars_eq]
  cases hread : Text.readNatural within with
  | none => rfl
  | some n => exact absurd (Text.readNatural_eq_some_iff.mp hread) (hnone n)

/-- A count is what its request comes to, read as one. -/
theorem value_recordCount (s : Service σ) (world : World σ) :
    (s.recordCount.run world).value =
      (verdict "record count" (s.called (s.endpoints.url .count) Http.plainText world).value).bind
        fun response ↦ readCount response.text := by
  simp only [recordCount, Act.run_bind, run_fetchEndpoint]
  cases verdict "record count" (s.called (s.endpoints.url .count) Http.plainText world).value with
  | error e => rfl
  | ok response =>
    cases hcount : readCount response.text with
    | error e => simp [Except.bind, hcount]
    | ok n => simp [Except.bind, hcount, Act.run_bind]

/-- Records are counted by the body of a granted answer, whatever bytes it holds: without the blanks
around it, it is a numeral of 64 bits and the count is its value, or it is no numeral and is refused
with that text. No other answer gives a count. -/
theorem recordCount_reads_numeral (s : Service σ) (world : World σ) :
    let called := s.called (s.endpoints.url .count) Http.plainText world
    let counted := (s.recordCount.run world).value
    (∀ response, called.value = .ok response → response.isSuccess = true →
      ∃ within, Text.Strips (Text.decodeLossy response.body) within ∧
        (∀ n, counted = .ok n ↔ Text.IsNumeral within n) ∧
        ((∀ n, ¬Text.IsNumeral within n) →
          counted = .error (.invalidCount (String.ofList within)))) ∧
    ∀ n, counted = .ok n →
      ∃ response, called.value = .ok response ∧ response.isSuccess = true := by
  intro called counted
  have hcounted : counted = (verdict "record count" called.value).bind
      fun response ↦ readCount response.text := value_recordCount s world
  constructor
  · intro response hresponse hgranted
    have hverdict : verdict "record count" called.value = .ok response :=
      verdict_eq_ok_iff.mpr ⟨hresponse, hgranted⟩
    have htext : response.text.toList = Text.decodeLossy response.body := String.toList_ofList
    have hstrips := Text.strips_trimChars response.text.toList
    rw [hcounted, hverdict, ← htext]
    exact ⟨_, hstrips, fun n ↦ readCount_eq_ok_iff hstrips, readCount_of_not_isNumeral hstrips⟩
  · intro n hn
    cases hverdict : verdict "record count" called.value with
    | error e =>
      rw [hcounted, hverdict] at hn
      cases hn
    | ok response => exact ⟨response, verdict_eq_ok_iff.mp hverdict⟩

/-- The greatest count, with a sign, a zero before it and a no-break space behind it. -/
theorem recordCount_reads_numeral_greatest :
    let response : Response := ⟨200, "OK", none, Text.bytesOf "+018446744073709551615\u00a0"⟩
    response.isSuccess = true ∧
      (asked.recordCount.run (answering response)).value = .ok (2 ^ 64 - 1) := by
  intro response
  obtain ⟨within, hwithin, hcount, -⟩ := (recordCount_reads_numeral asked (answering response)).1
    response (value_called_asked rfl _ _) rfl
  have htext : within = "+018446744073709551615".toList := by
    rw [← hwithin.trimChars_eq]
    decide +kernel
  refine ⟨rfl, (hcount _).mpr ?_⟩
  rw [htext]
  exact .signed ⟨by decide, List.all_eq_true.mp (by decide), by decide, by decide⟩

end Service

end Harvest

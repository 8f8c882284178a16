import Harvest.Text.Utf8
import Mathlib.Tactic.IntervalCases

/-!
# Text that was encoded is read back

A character is written as a first byte, which tells how many bytes follow it, and bytes of six bits
each. What is read from a first byte and from those behind it is the character again, so decoding
gives a text back from its bytes.
-/

namespace Harvest.Text

variable {more low high bits n : Nat} {rest : Bytes}

/-! ## First bytes -/

private theorem lead?_one (h : n < 0x80) : lead? n = some ⟨n, 0, 0x80, 0xBF⟩ := by
  rw [lead?, if_pos h]

private theorem lead?_two (h : 0xC2 ≤ n) (h' : n < 0xE0) :
    lead? n = some ⟨n - 0xC0, 1, 0x80, 0xBF⟩ := by
  rw [lead?, if_neg (by omega), if_neg (by omega), if_pos h']

/-- The second of three bytes leaves out what two bytes can say, and the surrogates. -/
theorem lead?_three (h : 0xE0 ≤ n) (h' : n < 0xF0) : lead? n =
    some ⟨n - 0xE0, 2, if n = 0xE0 then 0xA0 else 0x80, if n = 0xED then 0x9F else 0xBF⟩ := by
  interval_cases n <;> rfl

/-- The second of four bytes leaves out what three bytes can say, and what is no code point. -/
theorem lead?_four (h : 0xF0 ≤ n) (h' : n < 0xF5) : lead? n =
    some ⟨n - 0xF0, 3, if n = 0xF0 then 0x90 else 0x80, if n = 0xF4 then 0x8F else 0xBF⟩ := by
  interval_cases n <;> rfl

/-! ## Characters -/

/-- A number below 256 is a byte. -/
theorem toNat_ofNat_byte (h : n < 0x100) : (UInt8.ofNat n).toNat = n := by
  rw [UInt8.toNat_ofNat', Nat.mod_eq_of_lt h]

private theorem readTail_zero : readTail 0 low high bits rest = (some bits, rest) := by
  cases rest <;> rfl

/-- A byte behind the first one brings six bits. -/
theorem readTail_succ (h : n < 0x40) (hlow : low ≤ n + 0x80) (hhigh : n + 0x80 ≤ high) :
    readTail (more + 1) low high bits (UInt8.ofNat (n + 0x80) :: rest) =
      readTail more 0x80 0xBF (bits * 64 + n) rest := by
  rw [readTail, toNat_ofNat_byte (by omega), if_pos ⟨hlow, hhigh⟩, Nat.add_sub_cancel]

/-- A character is read where a first byte and those behind it give its code point. -/
theorem readChar_of_lead {bytes : Bytes} {c : Char} (h : n < 0x100)
    (hlead : lead? n = some ⟨bits, more, low, high⟩)
    (htail : readTail more low high bits bytes = (some c.toNat, rest)) :
    readChar (UInt8.ofNat n) bytes = (some c, rest) := by
  rw [readChar, toNat_ofNat_byte h, hlead]
  simp only [htail, Option.map_some, Char.ofNat_toNat]

/-- The first byte of a character, and the character read back from its bytes. -/
theorem readChar_utf8EncodeChar (c : Char) (rest : Bytes) :
    ∃ b bytes, String.utf8EncodeChar c = b :: bytes ∧
      readChar b (bytes ++ rest) = (some c, rest) := by
  have hvalid : c.toNat < 0xD800 ∨ 0xDFFF < c.toNat ∧ c.toNat < 0x110000 := c.valid
  have hval : c.val.toNat = c.toNat := rfl
  simp only [String.utf8EncodeChar, hval]
  generalize hn : c.toNat = n at hvalid
  split
  · next h =>
    refine ⟨_, _, rfl, readChar_of_lead (by omega) (lead?_one (by omega)) ?_⟩
    rw [readTail_zero, hn]
    rfl
  split
  · next h =>
    refine ⟨_, _, rfl, readChar_of_lead (by omega) (lead?_two (by omega) (by omega)) ?_⟩
    rw [List.singleton_append, readTail_succ (by omega) (by omega) (by omega), readTail_zero, hn]
    congr 2
    omega
  split
  · next h =>
    refine ⟨_, _, rfl, readChar_of_lead (by omega) (lead?_three (by omega) (by omega)) ?_⟩
    rw [List.cons_append, List.singleton_append,
      readTail_succ (by omega) (by split <;> omega) (by split <;> omega),
      readTail_succ (by omega) (by omega) (by omega), readTail_zero, hn]
    congr 2
    omega
  · next h =>
    refine ⟨_, _, rfl, readChar_of_lead (by omega) (lead?_four (by omega) (by omega)) ?_⟩
    rw [List.cons_append, List.cons_append, List.singleton_append,
      readTail_succ (by omega) (by split <;> omega) (by split <;> omega),
      readTail_succ (by omega) (by omega) (by omega),
      readTail_succ (by omega) (by omega) (by omega), readTail_zero, hn]
    congr 2
    omega

/-! ## Texts -/

/-- Texts are encoded one after the other. -/
theorem encode_append (cs ds : List Char) : encode (cs ++ ds) = encode cs ++ encode ds :=
  List.flatMap_append ..

/-- A text is encoded character by character. -/
theorem encode_cons (c : Char) (cs : List Char) :
    encode (c :: cs) = String.utf8EncodeChar c ++ encode cs :=
  List.flatMap_cons ..

/-- The first character is read back from the bytes of a text, and the others are left. -/
theorem readChar_encode (c : Char) (cs : List Char) :
    ∃ b bytes, encode (c :: cs) = b :: bytes ∧ readChar b bytes = (some c, encode cs) := by
  obtain ⟨b, bytes, hbytes, hread⟩ := readChar_utf8EncodeChar c (encode cs)
  exact ⟨b, bytes ++ encode cs, by rw [encode_cons, hbytes, List.cons_append], hread⟩

/-- Decoding gives back what was encoded. -/
theorem decodeLossy_encode (cs : List Char) : decodeLossy (encode cs) = cs := by
  induction cs with
  | nil => simp [encode, decodeLossy]
  | cons c cs ih =>
    obtain ⟨b, bytes, hencode, hread⟩ := readChar_encode c cs
    rw [hencode, decodeLossy, hread, ih, Option.getD_some]

/-- What is encoded can be decoded. -/
theorem decode_encode (cs : List Char) : decode (encode cs) = some cs := by
  induction cs with
  | nil => simp [encode, decode]
  | cons c cs ih =>
    obtain ⟨b, bytes, hencode, hread⟩ := readChar_encode c cs
    rw [hencode, decode, hread]
    simp only [ih, Option.map_some]

/-- The bytes of a text stand for it. -/
theorem textOf_encode (cs : List Char) : textOf (encode cs) = String.ofList cs := by
  rw [textOf, decodeLossy_encode]

/-! ## Characters behind other bytes -/

/-- Bytes that go with a first byte start no character themselves. -/
theorem of_lead?_eq_some {l : Lead} (h : lead? n = some l) :
    (n < 0x80 ∨ 0xC2 ≤ n) ∧ 0x80 ≤ l.low ∧ l.high ≤ 0xBF := by
  rw [lead?] at h
  split_ifs at h
  all_goals
    obtain rfl := Option.some.inj h
    exact ⟨by omega, by simp, by simp⟩

/-- Reading goes no further than to a byte that starts a character. -/
theorem readTail_append {first : Bytes} {b : UInt8} (hb : b.toNat < 0x80 ∨ 0xC2 ≤ b.toNat)
    (hlow : 0x80 ≤ low) (hhigh : high ≤ 0xBF)
    (h : (readTail more low high bits (first ++ b :: rest)).1 = some n) :
    ∃ left, (readTail more low high bits (first ++ b :: rest)).2 = left ++ b :: rest ∧
      left.length ≤ first.length := by
  induction first generalizing more low high bits with
  | nil =>
    cases more with
    | zero => exact ⟨[], by rw [readTail_zero, List.nil_append], Nat.le_refl _⟩
    | succ more =>
      rw [List.nil_append, readTail, if_neg (by omega)] at h
      simp at h
  | cons a first ih =>
    cases more with
    | zero => exact ⟨a :: first, by rw [readTail_zero], Nat.le_refl _⟩
    | succ more =>
      rw [List.cons_append, readTail] at h ⊢
      by_cases hrange : low ≤ a.toNat ∧ a.toNat ≤ high
      · rw [if_pos hrange] at h ⊢
        obtain ⟨left, hleft, hle⟩ := ih (by decide) (by decide) h
        exact ⟨left, hleft, Nat.le_succ_of_le hle⟩
      · rw [if_neg hrange] at h
        simp at h

private theorem readChar_append {first : Bytes} {a b : UInt8} {c : Char}
    (hb : b.toNat < 0x80 ∨ 0xC2 ≤ b.toNat) (h : (readChar a (first ++ b :: rest)).1 = some c) :
    ∃ left, (readChar a (first ++ b :: rest)).2 = left ++ b :: rest ∧
      left.length ≤ first.length := by
  rw [readChar] at h ⊢
  cases hlead : lead? a.toNat with
  | none => simp [hlead] at h
  | some l =>
    obtain ⟨-, hlow, hhigh⟩ := of_lead?_eq_some hlead
    simp only [hlead, Option.map_eq_some_iff] at h ⊢
    obtain ⟨n, hn, -⟩ := h
    exact readTail_append hb hlow hhigh hn

/-- A character is read whatever bytes stand before it, if these can be read at all. -/
theorem mem_of_decode_append {bytes : Bytes} {c : Char} {cs : List Char}
    (h : decode (bytes ++ String.utf8EncodeChar c) = some cs) : c ∈ cs := by
  obtain ⟨b, behind, hencode, hread⟩ := readChar_utf8EncodeChar c []
  rw [List.append_nil] at hread
  have hstarts : b.toNat < 0x80 ∨ 0xC2 ≤ b.toNat := by
    cases hlead : lead? b.toNat with
    | none => simp [readChar, hlead] at hread
    | some l => exact (of_lead?_eq_some hlead).1
  rw [hencode] at h
  -- What is read of the bytes before the character leaves fewer of them.
  induction hsize : bytes.length using Nat.strong_induction_on generalizing bytes cs with
  | _ size ih =>
    cases bytes with
    | nil =>
      rw [List.nil_append, decode, hread] at h
      obtain ⟨others, -, rfl⟩ := Option.map_eq_some_iff.mp h
      exact List.mem_cons_self
    | cons a first =>
      rw [List.cons_append, decode] at h
      cases hchar : (readChar a (first ++ b :: behind)).1 with
      | none => simp [hchar] at h
      | some d =>
        obtain ⟨left, hleft, hle⟩ := readChar_append hstarts hchar
        simp only [hchar, hleft] at h
        obtain ⟨others, hothers, rfl⟩ := Option.map_eq_some_iff.mp h
        rw [List.length_cons] at hsize
        exact List.mem_cons_of_mem _ (ih left.length (by omega) hothers rfl)

end Harvest.Text

import Harvest.Json.Record
import Harvest.Proofs.Json.Strings

/-!
# Values that are read back

What a reader gets from the text of a value does not depend on the blanks before it, nor on what
follows as long as that is parted from the value by a comma or a line break. Here this is shown of
the values that are strings or whole numbers.
-/

namespace Harvest.Json

open Text (Bytes encode)
open Reader

variable {α β : Type} {read : Reader α} {a : α} {rest blanks : Bytes} {b : UInt8} {c : Char}
  {cs : List Char} {n : Nat}

/-! ## Blanks -/

/-- Bytes that stand between tokens. -/
def AreBlank (blanks : Bytes) : Prop := ∀ b ∈ blanks, isBlankByte b = true

/-- No bytes at all are blank. -/
theorem AreBlank.nil : AreBlank [] := by simp [AreBlank]

/-- A space is blank. -/
theorem areBlank_space : AreBlank [byte ' '] := by
  simp only [AreBlank, List.mem_singleton, forall_eq]
  rfl

/-- A line break is blank. -/
theorem areBlank_lineBreak (level : Nat) : AreBlank (encode (lineBreak level)) := by
  intro b hb
  rw [lineBreak, encode_cons_of_lt (by decide), List.mem_cons] at hb
  rcases hb with rfl | hb
  · rfl
  · rw [encode, List.mem_flatMap] at hb
    obtain ⟨c, hc, hb⟩ := hb
    rw [(List.mem_replicate.mp hc).2, utf8EncodeChar_of_lt (by decide), List.mem_singleton] at hb
    subst hb
    rfl

/-- A look at the next token skips blanks. -/
theorem peekToken_bind (next : Option UInt8 → Reader α) (input : Bytes) :
    (peekToken >>= next) input =
      next (input.dropWhile isBlankByte).head? (input.dropWhile isBlankByte) := rfl

/-- Looking at the next token drops the blanks before it. -/
theorem peekToken_append (hblanks : AreBlank blanks) (hb : isBlankByte b = false) :
    peekToken (blanks ++ b :: rest) = (.ok (some b), b :: rest) := by
  have hdrop : (blanks ++ b :: rest).dropWhile isBlankByte = b :: rest := by
    rw [List.dropWhile_append_of_pos hblanks, List.dropWhile_cons_of_neg (by simp [hb])]
  rw [peekToken, left_bind, goto_bind, hdrop]
  rfl

/-- A value starts behind blanks. -/
theorem startOfValue_append (hblanks : AreBlank blanks) (hb : isBlankByte b = false) :
    startOfValue (blanks ++ b :: rest) = (.ok b, b :: rest) := by
  rw [startOfValue, bind_of_ok (peekToken_append hblanks hb)]
  rfl

/-- Where there are no blanks a look at the next token takes no input. -/
theorem peekToken_cons (hb : isBlankByte b = false) :
    peekToken (b :: rest) = (.ok (some b), b :: rest) :=
  peekToken_append .nil hb

/-! ## Values among others -/

/-- What may follow a value: a comma, a line break or nothing. -/
def IsParted (rest : Bytes) : Prop := ∀ b ∈ rest.head?, b = byte ',' ∨ b = byte '\n'

/-- Nothing may follow a value. -/
theorem IsParted.nil : IsParted [] := by simp [IsParted]

/-- No digit follows. -/
theorem IsParted.isDigitByte_eq_false (h : IsParted rest) :
    ∀ b ∈ rest.head?, isDigitByte b = false := by
  intro b hb
  rcases h b hb with rfl | rfl <;> rfl

/-- No other mark follows. -/
theorem IsParted.head?_ne (h : IsParted rest) (hcomma : b ≠ byte ',') (hbreak : b ≠ byte '\n') :
    rest.head? ≠ some b := by
  intro hb
  rcases h b hb with rfl | rfl
  · exact hcomma rfl
  · exact hbreak rfl

/-- A reader gets a value from a text wherever that may stand. -/
def Gets (read : Reader α) (cs : List Char) (a : α) : Prop :=
  ∀ blanks rest, AreBlank blanks → IsParted rest →
    read (blanks ++ (encode cs ++ rest)) = (.ok a, rest)

/-- A function of what a reader gets is got from the same text. -/
theorem Gets.map (h : Gets read cs a) (f : α → β) : Gets (f <$> read) cs (f a) :=
  fun blanks rest hblanks hrest ↦ bind_of_ok (h blanks rest hblanks hrest) (pure ∘ f)

/-- A value is read from where it starts. -/
theorem Gets.of_start {next : UInt8 → Reader α} (hc : c.toNat < 0x80)
    (hblank : isBlankByte (byte c) = false)
    (h : ∀ rest, IsParted rest → next (byte c) (byte c :: (encode cs ++ rest)) = (.ok a, rest)) :
    Gets (startOfValue >>= next) (c :: cs) a := by
  intro blanks rest hblanks hrest
  rw [encode_cons_of_lt hc, List.cons_append, bind_of_ok (startOfValue_append hblanks hblank)]
  exact h rest hrest

/-! ## Strings -/

/-- A string is read as it is written. -/
theorem gets_string (s : String) : Gets string (stringChars s) s := by
  rw [string, stringChars, List.cons_append]
  refine .of_start (by decide) rfl fun rest _ ↦ ?_
  rw [if_pos rfl, advance_bind_cons]
  exact restOfString_append s rest

/-- A string is read where a value of any kind may stand. -/
theorem gets_value_string (depth : Nat) (s : String) :
    Gets (value depth) (stringChars s) (.string s) := by
  have hlist : byte '"' ≠ byte '[' := by decide
  have hobject : byte '"' ≠ byte '\x7b' := by decide
  have hword : byte '"' ≠ byte 'n' ∧ byte '"' ≠ byte 't' ∧ byte '"' ≠ byte 'f' := by decide
  rw [value, stringChars, List.cons_append]
  refine .of_start (by decide) rfl fun rest _ ↦ ?_
  rw [left_bind, if_neg hlist, if_neg hobject, scalar, if_neg hword.1, if_neg hword.2.1,
    if_neg hword.2.2, if_pos rfl, advance_bind_cons, bind_of_ok (restOfString_append s rest)]
  rfl

/-! ## Whole numbers -/

/-- The value of a decimal digit. -/
def digitValue (c : Char) : Nat := c.toNat - '0'.toNat

private theorem digit?_byte (h : c.isDigit = true) : digit? (byte c) = some (digitValue c) := by
  obtain ⟨hlow, hhigh⟩ : 0x30 ≤ c.toNat ∧ c.toNat ≤ 0x39 := Char.isDigit_iff_toNat.mp h
  have hbyte : (byte c).toNat = c.toNat := Text.toNat_ofNat_byte (by omega)
  have hrange : byte '0' ≤ byte c ∧ byte c ≤ byte '9' := by
    simp only [UInt8.le_iff_toNat_le, hbyte]
    exact ⟨hlow, hhigh⟩
  rw [digit?, if_pos hrange, hbyte]
  rfl

/-- Decimal digits in bytes. -/
theorem encode_of_isDigit (h : ∀ c ∈ cs, c.isDigit = true) : encode cs = cs.map byte := by
  induction cs with
  | nil => rfl
  | cons c cs ih =>
    obtain ⟨hc, hcs⟩ := List.forall_mem_cons.mp h
    have hascii : c.toNat ≤ 0x39 := (Char.isDigit_iff_toNat.mp hc).2
    rw [encode_cons_of_lt (by omega), ih hcs, List.map_cons]

private theorem isBlankByte_of_isDigitByte (h : isDigitByte b = true) : isBlankByte b = false := by
  rw [Bool.eq_false_iff]
  intro hblank
  simp only [isBlankByte, Bool.or_eq_true, beq_iff_eq] at hblank
  rcases hblank with ((rfl | rfl) | rfl) | rfl <;> exact absurd h (by decide)

private theorem filterMap_digit?_encode (h : ∀ c ∈ cs, c.isDigit = true) :
    (encode cs).filterMap digit? = cs.map digitValue := by
  rw [encode_of_isDigit h]
  induction cs with
  | nil => rfl
  | cons c cs ih =>
    obtain ⟨hc, hcs⟩ := List.forall_mem_cons.mp h
    rw [List.map_cons, List.filterMap_cons_some (digit?_byte hc), ih hcs, List.map_cons]

/-- Reading digits comes to the first byte that is none. -/
theorem digits_append (h : ∀ c ∈ cs, c.isDigit = true)
    (hrest : ∀ b ∈ rest.head?, isDigitByte b = false) :
    digits (encode cs ++ rest) = (.ok (cs.map digitValue), rest) := by
  have hbytes : ∀ b ∈ encode cs, isDigitByte b = true := by
    rw [encode_of_isDigit h]
    simp only [List.mem_map, forall_exists_index, and_imp, forall_apply_eq_imp_iff₂]
    intro c hc
    rw [isDigitByte, digit?_byte (h c hc), Option.isSome_some]
  have hstop : rest.takeWhile isDigitByte = [] ∧ rest.dropWhile isDigitByte = rest := by
    cases rest with
    | nil => simp
    | cons b rest => simp [hrest b rfl]
  rw [digits, left_bind, goto_bind, List.takeWhile_append_of_pos hbytes,
    List.dropWhile_append_of_pos hbytes, hstop.1, hstop.2, List.append_nil,
    filterMap_digit?_encode h, pure_apply]

/-- More digits make no smaller number. -/
theorem le_ofDigitChars (cs : List Char) (n : Nat) : n ≤ Nat.ofDigitChars 10 cs n := by
  induction cs generalizing n with
  | nil => exact Nat.le_refl n
  | cons c cs ih =>
    rw [Nat.ofDigitChars_cons]
    exact Nat.le_trans (by omega) (ih _)

/-- Digits are put together as long as they stay within the bound. -/
theorem appendDigits_eq {bound : Nat} (h : Nat.ofDigitChars 10 cs n ≤ bound) :
    appendDigits bound n (cs.map digitValue) = (Nat.ofDigitChars 10 cs n, []) := by
  induction cs generalizing n with
  | nil => rfl
  | cons c cs ih =>
    rw [Nat.ofDigitChars_cons, Nat.mul_comm] at h ⊢
    rw [List.map_cons, appendDigits, digitValue, if_pos (Nat.le_trans (le_ofDigitChars cs _) h)]
    exact ih h

/-- A number other than 0 is not written with the digit 0 first. -/
theorem head?_toDigits_ne (h : 0 < n) : (Nat.toDigits 10 n).head? ≠ some '0' := by
  induction n using Nat.strong_induction_on with
  | _ n ih =>
    by_cases hlt : n < 10
    · rw [Nat.toDigits_of_lt_base hlt]
      interval_cases n <;> decide
    · have hsome : Nat.toDigits 10 (n / 10) ≠ [] := Nat.toDigits_ne_nil
      obtain ⟨c, cs, hcs⟩ := List.exists_cons_of_ne_nil hsome
      have hne := ih (n / 10) (by omega) (by omega)
      rw [Nat.toDigits_of_base_le (by decide) (by omega), hcs]
      rwa [hcs] at hne

/-- So nothing follows a digit 0 that comes first. -/
theorem eq_nil_of_toDigits (hcs : Nat.toDigits 10 n = c :: cs) (hc : c.isDigit = true)
    (h : digitValue c = 0) : cs = [] := by
  have hlow : '0'.toNat ≤ c.toNat := (Char.isDigit_iff_toNat.mp hc).1
  have hchar : c = '0' :=
    Char.toNat_inj.mp (Nat.le_antisymm (Nat.le_of_sub_eq_zero h) hlow)
  have hn : n = 0 := by
    by_contra hne
    exact head?_toDigits_ne (Nat.pos_of_ne_zero hne) (by rw [hcs, hchar]; rfl)
  rw [hn, Nat.toDigits_zero, List.cons.injEq] at hcs
  exact hcs.2.symm

/-- A whole number is read from its digits. -/
theorem numberBehindSign_append (hcs : Nat.toDigits 10 n = c :: cs) (h : n ≤ greatestNat)
    (hrest : IsParted rest) :
    numberBehindSign false (byte c :: (encode cs ++ rest)) = (.ok (.nat n), rest) := by
  have hdigits : ∀ d ∈ c :: cs, d.isDigit = true := by
    rw [← hcs]
    exact fun d hd ↦ Nat.isDigit_of_mem_toDigits (by decide) (by decide) hd
  obtain ⟨hc, hdigits⟩ := List.forall_mem_cons.mp hdigits
  have hvalue : Nat.ofDigitChars 10 cs (digitValue c) = n := by
    have hread : Nat.ofDigitChars 10 (Nat.toDigits 10 n) 0 = n := Nat.ofDigitChars_ten_toDigits
    rwa [hcs, Nat.ofDigitChars_cons, Nat.mul_zero, Nat.zero_add] at hread
  have happend : appendDigits greatestNat (digitValue c) (cs.map digitValue) = (n, []) := by
    rw [appendDigits_eq (by rwa [hvalue]), hvalue]
  have hzero : ¬(digitValue c = 0 ∧ (encode cs ++ rest).head?.any isDigitByte = true) := by
    rintro ⟨hzero, hany⟩
    rw [eq_nil_of_toDigits hcs hc hzero] at hany
    cases rest with
    | nil => cases hany
    | cons b rest => simp [encode, hrest.isDigitByte_eq_false b rfl] at hany
  simp only [numberBehindSign, next?_bind_cons, Option.map_some, digit?_byte hc, peek?_bind, hzero,
    if_false]
  rw [bind_of_ok (digits_append hdigits hrest.isDigitByte_eq_false), happend]
  have hpoint : rest.head? ≠ some (byte '.') := hrest.head?_ne (by decide) (by decide)
  have hexponent : ¬(rest.head? = some (byte 'e') ∨ rest.head? = some (byte 'E')) :=
    not_or.mpr ⟨hrest.head?_ne (by decide) (by decide), hrest.head?_ne (by decide) (by decide)⟩
  simp only [peek?_bind, if_neg hpoint, if_neg hexponent, if_true]
  rfl

/-- A natural number is read as it is written. -/
theorem gets_natural (expected : String) (h : n ≤ greatestNat) :
    Gets (natural expected) (Nat.toDigits 10 n) n := by
  have hsome : Nat.toDigits 10 n ≠ [] := Nat.toDigits_ne_nil
  obtain ⟨c, cs, hcs⟩ := List.exists_cons_of_ne_nil hsome
  have hmem : c ∈ Nat.toDigits 10 n := hcs ▸ List.mem_cons_self
  have hc : c.isDigit = true := Nat.isDigit_of_mem_toDigits (by decide) (by decide) hmem
  have hdigit : isDigitByte (byte c) = true := by
    rw [isDigitByte, digit?_byte hc, Option.isSome_some]
  rw [hcs]
  refine .of_start ?_ ?_ fun rest hrest ↦ ?_
  · have hascii : c.toNat ≤ 0x39 := (Char.isDigit_iff_toNat.mp hc).2
    omega
  · exact isBlankByte_of_isDigitByte hdigit
  · have hsign : byte c ≠ byte '-' := by
      intro heq
      rw [heq] at hdigit
      exact absurd hdigit (by decide)
    have hnumber : number (byte c) (byte c :: (encode cs ++ rest)) = (.ok (.nat n), rest) := by
      rw [number, if_neg hsign]
      exact numberBehindSign_append hcs h hrest
    rw [startsNumber, hdigit, Bool.or_true, if_pos rfl, bind_of_ok hnumber]
    rfl

end Harvest.Json

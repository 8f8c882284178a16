import Harvest.Json.Parse
import Harvest.Json.Printer
import Harvest.Proofs.Text.Utf8

/-!
# Strings that are read back

Between its quotes a string is written character by character: some as an escape, the others as
their bytes, none of which is a quote, a backslash or a control character. Reading takes one of
these pieces after the other, so it comes to the quote behind the string with its bytes.
-/

namespace Harvest.Json

open Text (Bytes encode)
open Reader

variable {α β : Type} {input rest tail head : Bytes} {b : UInt8} {rounds n : Nat}

/-! ## Steps of readers -/

namespace Reader

/-- What comes after a reader that gives a value goes on where that one has come to. -/
theorem bind_of_ok {read : Reader α} {a : α} (h : read input = (.ok a, rest))
    (next : α → Reader β) : (read >>= next) input = next a rest := by
  simp only [bind, h]

/-- A value that is given takes no input. -/
@[simp] theorem pure_apply (a : α) (input : Bytes) : (pure a : Reader α) input = (.ok a, input) :=
  rfl

/-- A look at the next byte takes no input. -/
@[simp] theorem peek?_bind (next : Option UInt8 → Reader β) (input : Bytes) :
    (peek? >>= next) input = next input.head? input := rfl

/-- The next byte is taken from the input. -/
@[simp] theorem next?_bind_cons (next : Option UInt8 → Reader β) (b : UInt8) (input : Bytes) :
    (next? >>= next) (b :: input) = next (some b) input := rfl

/-- To advance takes one byte from the input. -/
@[simp] theorem advance_bind_cons (next : Unit → Reader β) (b : UInt8) (input : Bytes) :
    (advance >>= next) (b :: input) = next () input := rfl

/-- To ask for what is left takes no input. -/
@[simp] theorem left_bind (next : Bytes → Reader β) (input : Bytes) :
    (left >>= next) input = next input input := rfl

/-- A reader can go on from another input. -/
@[simp] theorem goto_bind (next : Unit → Reader β) (input other : Bytes) :
    (goto other >>= next) input = next () other := rfl

/-- What is left is the input. -/
theorem left_apply (input : Bytes) : left input = (.ok input, input) := rfl

/-- To advance leaves the input behind the first byte. -/
theorem advance_apply (b : UInt8) (input : Bytes) : advance (b :: input) = (.ok (), input) := rfl

/-- It makes no difference which of three readers are taken together. -/
theorem bind_bind {γ : Type} (read : Reader α) (next : α → Reader β) (last : β → Reader γ) :
    (read >>= next >>= last) = read >>= fun a ↦ next a >>= last := by
  funext input
  simp only [bind]
  rcases read input with ⟨_ | _, _⟩ <;> rfl

end Reader

/-! ## Pieces of a string -/

private theorem stringBytes_quote :
    stringBytes (rounds + 1) (byte '"' :: rest) = (.ok [], byte '"' :: rest) := rfl

/-- A byte that a string holds as it is. -/
structure IsPlain (b : UInt8) : Prop where
  ne_quote : b ≠ byte '"'
  ne_backslash : b ≠ byte '\\'
  not_control : ¬b < 0x20

private theorem stringBytes_plain (h : IsPlain b)
    (htail : stringBytes rounds input = (.ok tail, rest)) :
    stringBytes (rounds + 1) (b :: input) = (.ok (b :: tail), rest) := by
  simp only [stringBytes, peek?_bind, List.head?_cons, advance_bind_cons, if_neg h.ne_quote,
    if_neg h.ne_backslash, if_neg h.not_control]
  rw [bind_of_ok htail, pure_apply]

private theorem stringBytes_escape {behind : Bytes}
    (hhead : escapeSequence input = (.ok head, behind))
    (htail : stringBytes rounds behind = (.ok tail, rest)) :
    stringBytes (rounds + 1) (byte '\\' :: input) = (.ok (head ++ tail), rest) := by
  have hquote : byte '\\' ≠ byte '"' := by decide
  simp only [stringBytes, peek?_bind, List.head?_cons, advance_bind_cons, if_neg hquote, if_true]
  rw [bind_of_ok hhead, bind_of_ok htail, pure_apply]

/-- An escape of one character gives the byte that it stands for. -/
theorem escapeSequence_simple {c : UInt8} (hu : b ≠ byte 'u') (h : simpleEscape? b = some c) :
    escapeSequence (b :: input) = (.ok [c], input) := by
  simp only [escapeSequence, next?_bind_cons, if_neg hu, h, pure_apply]

private theorem hexDigit?_digitChar (h : n < 16) : hexDigit? (byte (Nat.digitChar n)) = some n := by
  interval_cases n <;> rfl

private theorem fourHexDigits_digitChars (h : n < 0x100) :
    fourHexDigits (byte '0' :: byte '0' :: byte (Nat.digitChar (n / 16)) ::
      byte (Nat.digitChar (n % 16)) :: input) = (.ok n, input) := by
  have hzero : hexDigit? (byte '0') = some 0 := rfl
  have hhigh := hexDigit?_digitChar (show n / 16 < 16 by omega)
  have hlow := hexDigit?_digitChar (show n % 16 < 16 by omega)
  have hvalue : ((0 * 16 + 0) * 16 + n / 16) * 16 + n % 16 = n := by omega
  simp only [fourHexDigits, left_bind, goto_bind, hzero, hhigh, hlow, pure_apply, hvalue]

/-- A character below 128 is encoded in one byte. -/
theorem utf8EncodeChar_of_lt {c : Char} (h : c.toNat < 0x80) :
    String.utf8EncodeChar c = [byte c] := by
  have hle : c.val.toNat ≤ 0x7F := Nat.le_of_lt_succ h
  simp only [String.utf8EncodeChar, if_pos hle]
  rfl

/-- The escape of a control character gives its one byte. -/
theorem escapeSequence_control {c : Char} (h : c.toNat < 0x20) :
    escapeSequence (byte 'u' :: byte '0' :: byte '0' :: byte (Nat.digitChar (c.toNat / 16)) ::
      byte (Nat.digitChar (c.toNat % 16)) :: input) = (.ok (String.utf8EncodeChar c), input) := by
  have hcode : codePoint (byte '0' :: byte '0' :: byte (Nat.digitChar (c.toNat / 16)) ::
      byte (Nat.digitChar (c.toNat % 16)) :: input) = (.ok c, input) := by
    rw [codePoint, bind_of_ok (fourHexDigits_digitChars (by omega)), if_neg (by omega),
      if_pos (by omega), pure_apply, Char.ofNat_toNat]
  simp only [escapeSequence, next?_bind_cons, if_true]
  rw [bind_of_ok hcode, pure_apply]

/-! ## Characters of a string -/

/-- Bytes that a string holds as they are. -/
theorem stringBytes_append {bytes : Bytes} (h : ∀ b ∈ bytes, IsPlain b)
    (htail : ∀ rounds, n < rounds → stringBytes rounds input = (.ok tail, rest))
    (hrounds : bytes.length + n < rounds) :
    stringBytes rounds (bytes ++ input) = (.ok (bytes ++ tail), rest) := by
  induction bytes generalizing rounds with
  | nil => exact htail rounds (by simpa using hrounds)
  | cons b bytes ih =>
    rw [List.length_cons] at hrounds
    cases rounds with
    | zero => omega
    | succ rounds =>
      obtain ⟨hb, hbytes⟩ := List.forall_mem_cons.mp h
      exact stringBytes_plain hb (ih hbytes (by omega))

private theorem IsPlain.of_le (h : 0x80 ≤ b.toNat) : IsPlain b := by
  have hne (c : UInt8) (hc : c.toNat < 0x80) : b ≠ c := by
    rintro rfl
    omega
  refine ⟨hne _ (by decide), hne _ (by decide), ?_⟩
  rw [UInt8.lt_iff_toNat_lt]
  have hspace : (0x20 : UInt8).toNat = 0x20 := rfl
  omega

/-- The bytes of a character beyond ASCII are all beyond ASCII. -/
theorem of_mem_utf8EncodeChar {c : Char} (hc : 0x80 ≤ c.toNat)
    (h : b ∈ String.utf8EncodeChar c) : 0x80 ≤ b.toNat := by
  have hval : c.val.toNat = c.toNat := rfl
  have hbyte (n : Nat) (hn : 0x80 ≤ n) (hn' : n < 0x100) : 0x80 ≤ (UInt8.ofNat n).toNat := by
    rwa [Text.toNat_ofNat_byte hn']
  simp only [String.utf8EncodeChar, hval, if_neg (show ¬c.toNat ≤ 0x7F by omega)] at h
  split_ifs at h
  all_goals
    simp only [List.mem_cons, List.not_mem_nil, or_false] at h
    rcases h with rfl | h
    · exact hbyte _ (by omega) (by omega)
  · rw [h]
    exact hbyte _ (by omega) (by omega)
  · rcases h with rfl | rfl <;> exact hbyte _ (by omega) (by omega)
  · rcases h with rfl | rfl | rfl <;> exact hbyte _ (by omega) (by omega)

/-- A character that is no quote, no backslash and no control character consists of plain bytes. -/
theorem IsPlain.of_mem_utf8EncodeChar {c : Char} (hquote : c ≠ '"') (hbackslash : c ≠ '\\')
    (hcontrol : ¬c.toNat < 0x20) (h : b ∈ String.utf8EncodeChar c) : IsPlain b := by
  by_cases hascii : c.toNat < 0x80
  · rw [utf8EncodeChar_of_lt hascii, List.mem_singleton] at h
    have hnat : b.toNat = c.toNat := by rw [h, byte, Nat.toUInt8, Text.toNat_ofNat_byte (by omega)]
    have hne {d : Char} (hd : d.toNat < 0x80) (hcd : c ≠ d) : b ≠ byte d := by
      intro heq
      have hd' : (byte d).toNat = d.toNat := Text.toNat_ofNat_byte (by omega)
      exact hcd (Char.toNat_inj.mp (by rw [← hnat, heq, hd']))
    exact ⟨hne (by decide) hquote, hne (by decide) hbackslash,
      fun hlt ↦ hcontrol (hnat ▸ UInt8.lt_iff_toNat_lt.mp hlt)⟩
  · exact .of_le (Json.of_mem_utf8EncodeChar (by omega) h)

/-- The ways that a character is written in a string. -/
inductive IsWritten (c : Char) : List Char → Prop
  | simple {d : Char} (hc : c.toNat < 0x80) (hd : d.toNat < 0x80) (hu : byte d ≠ byte 'u')
      (h : simpleEscape? (byte d) = some (byte c)) : IsWritten c ['\\', d]
  | control (h : c.toNat < 0x20) : IsWritten c
      ['\\', 'u', '0', '0', Nat.digitChar (c.toNat / 16), Nat.digitChar (c.toNat % 16)]
  | plain (hquote : c ≠ '"') (hbackslash : c ≠ '\\') (hcontrol : ¬c.toNat < 0x20) : IsWritten c [c]

private theorem isWritten_escapeChar (c : Char) : IsWritten c (escapeChar c) := by
  rw [escapeChar]
  split_ifs with hquote hbackslash
  case pos | pos | pos | pos | pos | pos | pos =>
    subst c
    exact .simple (by decide) (by decide) (by decide) rfl
  case pos h => exact .control h
  case neg h => exact .plain hquote hbackslash h

/-- A text that starts with such a character starts with its byte. -/
theorem encode_cons_of_lt {c : Char} (h : c.toNat < 0x80) (cs : List Char) :
    encode (c :: cs) = byte c :: encode cs := by
  rw [Text.encode_cons, utf8EncodeChar_of_lt h, List.singleton_append]

/-- A character is read from the way it is written in a string. -/
theorem IsWritten.stringBytes_eq {c : Char} {cs : List Char} (h : IsWritten c cs)
    (htail : ∀ rounds, n < rounds → stringBytes rounds input = (.ok tail, rest))
    (hrounds : (encode cs).length + n < rounds) :
    stringBytes rounds (encode cs ++ input) = (.ok (String.utf8EncodeChar c ++ tail), rest) := by
  -- an escape takes one round and more than one byte
  have hescape {bytes : Bytes} (hlt : bytes.length + 1 + n < rounds)
      (hhead : escapeSequence (bytes ++ input) = (.ok (String.utf8EncodeChar c), input)) :
      stringBytes rounds (byte '\\' :: bytes ++ input) =
        (.ok (String.utf8EncodeChar c ++ tail), rest) := by
    cases rounds with
    | zero => omega
    | succ rounds => exact stringBytes_escape hhead (htail rounds (by omega))
  cases h with
  | simple hc hd hu hsimple =>
    rw [encode_cons_of_lt (by decide), encode_cons_of_lt hd] at hrounds ⊢
    refine hescape (by simpa using hrounds) ?_
    rw [utf8EncodeChar_of_lt hc]
    exact escapeSequence_simple hu hsimple
  | control hc =>
    have hdigit (n : Nat) (hn : n < 16) : (Nat.digitChar n).toNat < 0x80 := by
      interval_cases n <;> decide
    rw [encode_cons_of_lt (by decide), encode_cons_of_lt (by decide), encode_cons_of_lt (by decide),
      encode_cons_of_lt (by decide), encode_cons_of_lt (hdigit _ (by omega)),
      encode_cons_of_lt (hdigit _ (by omega))] at hrounds ⊢
    exact hescape (by simpa using hrounds) (escapeSequence_control hc)
  | plain hquote hbackslash hcontrol =>
    rw [encode, List.flatMap_singleton] at hrounds ⊢
    exact stringBytes_append (fun b ↦ .of_mem_utf8EncodeChar hquote hbackslash hcontrol) htail
      hrounds

/-- A text is read from behind its first quote up to its last one. -/
theorem stringBytes_flatMap (cs : List Char)
    (hrounds : (encode (cs.flatMap escapeChar)).length < rounds) :
    stringBytes rounds (encode (cs.flatMap escapeChar) ++ byte '"' :: rest) =
      (.ok (encode cs), byte '"' :: rest) := by
  induction cs generalizing rounds with
  | nil =>
    obtain ⟨rounds, rfl⟩ := Nat.exists_eq_succ_of_ne_zero (Nat.ne_zero_of_lt hrounds)
    exact stringBytes_quote
  | cons c cs ih =>
    rw [List.flatMap_cons, Text.encode_append, List.length_append] at hrounds
    rw [List.flatMap_cons, Text.encode_append, Text.encode_cons, List.append_assoc]
    exact (isWritten_escapeChar c).stringBytes_eq (fun _ ↦ ih) hrounds

/-! ## Strings -/

/-- A string is read from behind its first quote. -/
theorem restOfString_append (s : String) (rest : Bytes) :
    restOfString (encode (s.toList.flatMap escapeChar ++ ['"']) ++ rest) = (.ok s, rest) := by
  have hbytes : stringBytes
      ((encode (s.toList.flatMap escapeChar) ++ byte '"' :: rest).length + 1) _ =
        (.ok (encode s.toList), byte '"' :: rest) :=
    stringBytes_flatMap s.toList (by rw [List.length_append]; omega)
  rw [Text.encode_append, encode_cons_of_lt (by decide), List.append_assoc]
  change restOfString (encode (s.toList.flatMap escapeChar) ++ byte '"' :: rest) = (.ok s, rest)
  rw [restOfString, left_bind, bind_of_ok hbytes]
  simp only [Text.decode_encode, advance_bind_cons, pure_apply, String.ofList_toList]

/-- A name is read from its first quote on. -/
theorem entryName_append (s : String) (rest : Bytes) :
    entryName (encode (stringChars s) ++ rest) = (.ok s, rest) := by
  rw [stringChars, List.cons_append, encode_cons_of_lt (by decide), List.cons_append, entryName,
    advance_bind_cons]
  exact restOfString_append s rest

end Harvest.Json

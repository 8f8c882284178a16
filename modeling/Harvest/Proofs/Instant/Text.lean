import Harvest.Instant.Parse
import Harvest.Proofs.Instant.Calendar
import Harvest.Proofs.Text.Blank

/-!
# The text of an instant is read back

Each part of the text is read by the reader that comes to it: a year, numbers of two digits with
marks between them, a fraction in the fewest digits that hold it, and `Z`.
-/

namespace Harvest.Instant

variable {α β : Type} {a : α} {cs rest : List Char} {c : Char} {n width : Nat}

/-! ## Steps of readers -/

/-- What comes after a reader that gives a value goes on where that one has come to. -/
theorem Reader.bind_of_ok {read : Reader α} (h : read.run cs = .ok (a, rest))
    (next : α → Reader β) : (read >>= next).run cs = (next a).run rest := by
  rw [StateT.run_bind, h]
  rfl

/-- A reader that looks at what is left goes on with it. -/
theorem Reader.get_bind (next : List Char → Reader β) (cs : List Char) :
    (get >>= next).run cs = (next cs).run cs := rfl

/-- A reader that sets what is left goes on from there. -/
theorem Reader.set_bind (next : PUnit → Reader β) (cs cs' : List Char) :
    (set cs' >>= next : Reader β).run cs = (next ()).run cs' := rfl

private theorem Reader.pure_bind (a : α) (next : α → Reader β) (cs : List Char) :
    (pure a >>= next : Reader β).run cs = (next a).run cs := rfl

/-- Characters of a class are dropped up to the first other one. -/
theorem dropping_cons {p : Char → Bool} (h : p c = false) :
    (dropping p).run (c :: rest) = .ok ((), c :: rest) := by
  change Except.ok ((), (c :: rest).dropWhile p) = _
  rw [List.dropWhile_cons_of_neg (by simp [h])]

private theorem anyChar_cons (c : Char) (rest : List Char) :
    anyChar.run (c :: rest) = .ok (c, rest) := rfl

/-! ## Numbers -/

/-- Digits have the value that they are given elsewhere. -/
theorem valueOf_eq (digits : List Char) : valueOf digits = Nat.ofDigitChars 10 digits 0 := by
  simp only [valueOf, Nat.ofDigitChars, Nat.mul_comm 10]

/-- Zeros before digits change nothing of their value. -/
theorem valueOf_padded (width n : Nat) : valueOf (padded width n) = n := by
  have hzeros (k : Nat) : Nat.ofDigitChars 10 (List.replicate k '0') 0 = 0 := by
    induction k with
    | zero => rfl
    | succ k ih => rwa [List.replicate_succ, Nat.ofDigitChars_cons]
  rw [valueOf_eq, padded, Nat.ofDigitChars_append, hzeros, Nat.ofDigitChars_ten_toDigits]

private theorem isDigit_of_mem_padded (h : c ∈ padded width n) : c.isDigit = true := by
  rw [padded, List.mem_append] at h
  rcases h with h | h
  · rw [List.eq_of_mem_replicate h]
    rfl
  · exact Nat.isDigit_of_mem_toDigits (by decide) (by decide) h

/-- A number that a width is enough for takes just that width. -/
theorem length_padded (hwidth : 0 < width) (h : n < 10 ^ width) :
    (padded width n).length = width := by
  have hle := (Nat.length_toDigits_le_iff (by decide) hwidth).mpr h
  rw [padded, List.length_append, List.length_replicate]
  omega

private theorem padded_ne_nil (width n : Nat) : padded width n ≠ [] := by
  rw [padded]
  exact List.append_ne_nil_of_right_ne_nil _ Nat.toDigits_ne_nil

/-- Digits are read as their value, up to the width or to what is no digit. -/
theorem number_append {digits : List Char} (hne : digits ≠ []) (hle : digits.length ≤ width)
    (hdigits : ∀ c ∈ digits, c.isDigit = true) (hvalue : valueOf digits < 2 ^ 63)
    (hend : digits.length = width ∨ ∀ c ∈ rest.head?, c.isDigit = false) :
    (number width).run (digits ++ rest) = .ok (valueOf digits, rest) := by
  have htake : ((digits ++ rest).take width).takeWhile Char.isDigit = digits := by
    rw [List.take_append, List.take_of_length_le hle, List.takeWhile_append_of_pos hdigits]
    rcases hend with hfull | hhead
    · rw [hfull, Nat.sub_self, List.take_zero, List.takeWhile_nil, List.append_nil]
    · cases rest with
      | nil => simp
      | cons c rest =>
        cases width - digits.length with
        | zero => simp
        | succ k => simp [hhead c rfl]
  have hsome : digits ++ rest ≠ [] := List.append_ne_nil_of_left_ne_nil hne _
  rw [number, Reader.get_bind]
  simp only [htake, if_neg hsome, if_neg hne, if_neg (Nat.not_le.mpr hvalue), List.drop_left]
  rfl

/-- No blanks stand before digits. -/
theorem dropping_padded (width n : Nat) (rest : List Char) :
    (dropping Text.isBlank).run (padded width n ++ rest) = .ok ((), padded width n ++ rest) := by
  obtain ⟨c, cs, hcs⟩ := List.exists_cons_of_ne_nil (padded_ne_nil width n)
  have hc : c.isDigit = true := isDigit_of_mem_padded (hcs ▸ List.mem_cons_self)
  rw [hcs]
  exact dropping_cons (Text.isBlank_of_isDigit hc)

/-- Two digits are read as a number in a range. -/
theorem numberIn_padded {low high : Nat} (hlow : low ≤ n) (hhigh : n ≤ high) (h : n < 100)
    (rest : List Char) : (numberIn low high).run (padded 2 n ++ rest) = .ok (n, rest) := by
  have hlength : (padded 2 n).length = 2 := length_padded (by decide) h
  have hnumber : (number 2).run (padded 2 n ++ rest) = .ok (valueOf (padded 2 n), rest) :=
    number_append (padded_ne_nil 2 n) (by omega) (fun c ↦ isDigit_of_mem_padded)
      (by rw [valueOf_padded]; omega) (.inl hlength)
  rw [numberIn, Reader.bind_of_ok (dropping_padded ..), Reader.bind_of_ok hnumber, valueOf_padded,
    if_pos ⟨hlow, hhigh⟩]
  rfl

/-- A mark is read. -/
theorem mark_cons (h : Text.isBlank c = false) (rest : List Char) :
    (mark c).run (c :: rest) = .ok ((), rest) := by
  rw [mark, Reader.bind_of_ok (dropping_cons h), Reader.bind_of_ok (anyChar_cons c rest),
    if_pos rfl]
  rfl

/-! ## Dates -/

/-- A year behind a sign is read up to what is no digit. -/
theorem number_padded (h : n < 2 ^ 63) (hrest : ∀ c ∈ rest.head?, c.isDigit = false) :
    (number (padded width n ++ rest).length).run (padded width n ++ rest) = .ok (n, rest) := by
  have hnumber : (number (padded width n ++ rest).length).run (padded width n ++ rest) =
      .ok (valueOf _, rest) :=
    number_append (padded_ne_nil width n) (by rw [List.length_append]; omega)
      (fun c ↦ isDigit_of_mem_padded) (by rwa [valueOf_padded]) (.inr hrest)
  rwa [valueOf_padded] at hnumber

/-- A year is read from four digits, or from a sign and any number of them. -/
theorem year_append {y : Int} (hlow : Date.firstYear ≤ y) (hhigh : y ≤ Date.lastYear)
    (rest : List Char) : year.run (yearChars y ++ '-' :: rest) = .ok (y, '-' :: rest) := by
  have hrange : -((2 ^ 31 : Nat) : Int) ≤ y ∧ y < (2 ^ 31 : Nat) := by
    simp only [Date.firstYear, Date.lastYear] at hlow hhigh
    omega
  have hmark : ∀ c ∈ ('-' :: rest).head?, c.isDigit = false := by simp
  have hsize : y.natAbs < 2 ^ 63 := by omega
  have hchecked : (if -((2 ^ 31 : Nat) : Int) ≤ y ∧ y < (2 ^ 31 : Nat) then pure y
      else throw Error.outOfRange : Reader Int).run ('-' :: rest) = .ok (y, '-' :: rest) := by
    rw [if_pos hrange]
    rfl
  rw [yearChars]
  by_cases hfour : 0 ≤ y ∧ y ≤ 9999
  · obtain ⟨n, rfl⟩ := Int.eq_ofNat_of_zero_le hfour.1
    have hlength : (padded 4 n).length = 4 := length_padded (by decide) (by omega)
    have hnumber : (number 4).run (padded 4 n ++ '-' :: rest) = .ok (n, '-' :: rest) := by
      have hread : (number 4).run (padded 4 n ++ '-' :: rest) = .ok (valueOf _, '-' :: rest) :=
        number_append (padded_ne_nil 4 n) (Nat.le_of_eq hlength) (fun c ↦ isDigit_of_mem_padded)
          (by rw [valueOf_padded]; omega) (.inl hlength)
      rwa [valueOf_padded] at hread
    have hfirst (c : Char) (hc : c.isDigit = false) (behind : List Char) :
        padded 4 n ++ '-' :: rest ≠ c :: behind := by
      obtain ⟨d, ds, hds⟩ := List.exists_cons_of_ne_nil (padded_ne_nil 4 n)
      have hd : d.isDigit = true := isDigit_of_mem_padded (hds ▸ List.mem_cons_self)
      rw [hds]
      rintro ⟨⟩
      simp [hc] at hd
    rw [if_pos hfour, Int.toNat_natCast, year, Reader.bind_of_ok (dropping_padded ..),
      Reader.get_bind]
    split
    · next h => exact absurd h (hfirst '-' rfl _)
    · next h => exact absurd h (hfirst '+' rfl _)
    · rw [Reader.bind_of_ok hnumber, Reader.pure_bind]
      exact hchecked
  · have hnumber : (number (padded 4 y.natAbs ++ '-' :: rest).length).run
        (padded 4 y.natAbs ++ '-' :: rest) = .ok (y.natAbs, '-' :: rest) :=
      number_padded hsize hmark
    rw [if_neg hfour]
    by_cases hneg : y < 0
    · rw [if_pos hneg, List.cons_append, year, Reader.bind_of_ok (dropping_cons rfl),
        Reader.get_bind]
      simp only
      rw [Reader.set_bind, Reader.bind_of_ok hnumber, Reader.pure_bind]
      rwa [show -(y.natAbs : Int) = y by omega]
    · rw [if_neg hneg, List.cons_append, year, Reader.bind_of_ok (dropping_cons rfl),
        Reader.get_bind]
      simp only
      rw [Reader.set_bind, Reader.bind_of_ok hnumber, Reader.pure_bind]
      rwa [show (y.natAbs : Int) = y by omega]

private theorem monthLength_le (y : Int) (month : Nat) : Date.monthLength y month ≤ 31 := by
  unfold Date.monthLength
  split
  · split <;> decide
  all_goals decide

/-- A date is read. -/
theorem date_append {d : Date} (h : d.isValid = true) (rest : List Char) :
    date.run (yearChars d.year ++ '-' :: (padded 2 d.month ++ '-' :: (padded 2 d.day ++ rest))) =
      .ok (d, rest) := by
  simp only [Date.isValid, Bool.and_eq_true, decide_eq_true_eq] at h
  obtain ⟨⟨⟨⟨⟨hyear, hyear'⟩, hmonth⟩, hmonth'⟩, hday⟩, hday'⟩ := h
  have hlength := monthLength_le d.year d.month
  rw [date, Reader.bind_of_ok (year_append hyear hyear' _), Reader.bind_of_ok (mark_cons rfl _),
    Reader.bind_of_ok (numberIn_padded hmonth hmonth' (by omega) _),
    Reader.bind_of_ok (mark_cons rfl _),
    Reader.bind_of_ok (numberIn_padded hday (by omega) (by omega) _)]
  rfl

/-! ## Times of day -/

/-- A fraction is read from as many digits as a width has, up to nine. -/
theorem fraction_padded (hwidth : 0 < width) (hnine : width ≤ 9) (h : n < 10 ^ width) :
    fraction.run ('.' :: (padded width n ++ ['Z'])) = .ok (n * 10 ^ (9 - width), ['Z']) := by
  have hlength := length_padded hwidth h
  have hbound : n < 2 ^ 63 := by
    have hpow : 10 ^ width ≤ 10 ^ 9 := Nat.pow_le_pow_right (by decide) hnine
    omega
  have hnumber : (number 9).run (padded width n ++ ['Z']) = .ok (n, ['Z']) := by
    have hread : (number 9).run (padded width n ++ ['Z']) = .ok (valueOf _, ['Z']) :=
      number_append (padded_ne_nil width n) (by omega) (fun c ↦ isDigit_of_mem_padded)
        (by rwa [valueOf_padded]) (.inr (by simp))
    rwa [valueOf_padded] at hread
  have hwidth' : (padded width n ++ ['Z']).length - ['Z'].length = width := by
    rw [List.length_append, hlength, Nat.add_sub_cancel]
  rw [fraction, Reader.get_bind]
  simp only
  rw [Reader.set_bind, Reader.bind_of_ok hnumber, Reader.get_bind,
    Reader.bind_of_ok (dropping_cons rfl), hwidth']
  rfl

/-- A fraction is read from the fewest digits that hold it. -/
theorem fraction_append {nanos : Nat} (h : nanos < 1000000000) :
    fraction.run (fractionChars nanos ++ ['Z']) = .ok (nanos, ['Z']) := by
  rw [fractionChars]
  by_cases hzero : nanos = 0
  · rw [if_pos hzero, hzero]
    rfl
  rw [if_neg hzero]
  by_cases hthree : nanos % 1000000 = 0
  · have hback : nanos / 1000000 * 10 ^ (9 - 3) = nanos := by omega
    rw [if_pos hthree, List.cons_append, fraction_padded (by decide) (by decide) (by omega), hback]
  rw [if_neg hthree]
  by_cases hsix : nanos % 1000 = 0
  · have hback : nanos / 1000 * 10 ^ (9 - 6) = nanos := by omega
    rw [if_pos hsix, List.cons_append, fraction_padded (by decide) (by decide) (by omega), hback]
  · have hback : nanos * 10 ^ (9 - 9) = nanos := by omega
    rw [if_neg hsix, List.cons_append, fraction_padded (by decide) (by decide) (by omega), hback]

/-- A time of day is read, up to the mark of universal time. -/
theorem time_append {hour minute second nanos : Nat} (hhour : hour < 24) (hminute : minute < 60)
    (hsecond : second ≤ 60) (hnanos : nanos < 1000000000) :
    time.run (padded 2 hour ++ ':' :: (padded 2 minute ++ ':' :: (padded 2 second ++
      (fractionChars nanos ++ ['Z'])))) =
      .ok (((hour * 60 + minute) * 60 + min second 59,
        if second = 60 then nanos + 1000000000 else nanos), ['Z']) := by
  rw [time, Reader.bind_of_ok (numberIn_padded (by omega) (by omega) (by omega) _),
    Reader.bind_of_ok (mark_cons rfl _),
    Reader.bind_of_ok (numberIn_padded (by omega) (by omega) (by omega) _),
    Reader.bind_of_ok (mark_cons rfl _),
    Reader.bind_of_ok (numberIn_padded (by omega) (by omega) (by omega) _),
    Reader.bind_of_ok (fraction_append hnanos), Reader.bind_of_ok (dropping_cons rfl)]
  rfl

private theorem offset_utc : offset.run ['Z'] = .ok (0, []) := rfl

/-! ## Instants -/

/-- Whether a moment can be written as a date and a time of day: its date exists, and it is within a
second of its day, or within a leap second behind the last one of a minute. -/
def IsWritable (i : Instant) : Prop :=
  (Date.ofDays i.day).isValid = true ∧ i.second < 86400 ∧
    (i.nanos < 1000000000 ∨ i.nanos < 2000000000 ∧ i.second % 60 = 59)

instance (i : Instant) : Decidable i.IsWritable := inferInstanceAs (Decidable (_ ∧ _ ∧ _))

variable {i : Instant}

/-- A moment of universal time is what its date and its time of day make. -/
theorem ofLocal_ofDays (h : i.IsWritable) :
    ofLocal (Date.ofDays i.day) i.second i.nanos 0 = .ok i := by
  obtain ⟨hdate, hsecond, -⟩ := h
  have hday : (i.day * 86400 + i.second : Int).fdiv 86400 = i.day := by
    rw [Int.fdiv_eq_ediv_of_nonneg _ (by decide)]
    omega
  have hrest : (i.day * 86400 + i.second - i.day * 86400 : Int).toNat = i.second := by omega
  simp only [ofLocal, Date.toDays_ofDays, Int.sub_zero, hday, hrest, hdate, if_true]
  rfl

/-- The text of a moment is read back. -/
theorem parse_text (h : i.IsWritable) : parse i.text = .ok i := by
  obtain ⟨hdate, hsecond, hnanos⟩ := h
  have htime : time.run _ = .ok (((i.second / 3600 * 60 + i.second / 60 % 60) * 60 +
      min (i.second % 60 + i.nanos / 1000000000) 59, _), ['Z']) :=
    time_append (by omega) (by omega) (by omega) (show i.nanos % 1000000000 < 1000000000 by omega)
  have hseconds : (i.second / 3600 * 60 + i.second / 60 % 60) * 60 +
      min (i.second % 60 + i.nanos / 1000000000) 59 = i.second := by omega
  have hleap : (if i.second % 60 + i.nanos / 1000000000 = 60 then i.nanos % 1000000000 + 1000000000
      else i.nanos % 1000000000) = i.nanos := by
    split <;> omega
  rw [hseconds, hleap] at htime
  have hchars : i.text.toList = yearChars (Date.ofDays i.day).year ++ '-' ::
      (padded 2 (Date.ofDays i.day).month ++ '-' :: (padded 2 (Date.ofDays i.day).day ++ 'T' ::
        (padded 2 (i.second / 3600) ++ ':' :: (padded 2 (i.second / 60 % 60) ++ ':' ::
          (padded 2 (i.second % 60 + i.nanos / 1000000000) ++
            (fractionChars (i.nanos % 1000000000) ++ ['Z'])))))) := by
    simp only [text, chars, String.toList_ofList, List.append_assoc, List.cons_append]
  have hseparator (rest : List Char) : separator.run ('T' :: rest) = .ok ((), rest) := rfl
  have hend : (dropping Text.isBlank).run [] = .ok ((), []) := rfl
  have hinstant : instant.run i.text.toList = .ok (i, []) := by
    rw [hchars, instant, Reader.bind_of_ok (date_append hdate _), Reader.bind_of_ok (hseparator _),
      Reader.bind_of_ok htime]
    simp only
    rw [Reader.bind_of_ok offset_utc, Reader.bind_of_ok hend, Reader.get_bind]
    simp only [ne_eq, not_true_eq_false, if_false, ofLocal_ofDays ⟨hdate, hsecond, hnanos⟩]
    rfl
  rw [parse, hinstant]
  rfl

end Harvest.Instant

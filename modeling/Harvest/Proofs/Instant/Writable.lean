import Harvest.Proofs.Instant.Text
import Mathlib.Data.List.TakeWhile

/-!
# What is read as an instant can be written

A time of day is within its day, a leap second follows the last one of a minute, and an offset is a
number of whole minutes, so that it moves neither of them to another place in its minute.
-/

namespace Harvest.Instant

variable {α β : Type} {P : α → Prop} {Q : β → Prop} {cs rest : List Char} {n width : Nat}

/-- Whatever a reader gives has a property. -/
def Reader.Gives (read : Reader α) (P : α → Prop) : Prop :=
  ∀ cs a rest, read.run cs = .ok (a, rest) → P a

namespace Reader

/-- A reader that gives a value after another one has got a value from that. -/
theorem bind_eq_ok {read : Reader α} {next : α → Reader β} {b : β}
    (h : (read >>= next).run cs = .ok (b, rest)) :
    ∃ a more, read.run cs = .ok (a, more) ∧ (next a).run more = .ok (b, rest) := by
  rw [StateT.run_bind] at h
  cases hread : read.run cs with
  | error e =>
    rw [hread] at h
    cases h
  | ok result =>
    rw [hread] at h
    exact ⟨result.1, result.2, rfl, h⟩

private theorem gives_trivial (read : Reader α) : read.Gives fun _ ↦ True := fun _ _ _ _ ↦ trivial

private theorem gives_pure {a : α} (h : P a) : (pure a : Reader α).Gives P := by
  intro cs b rest hread
  cases hread
  exact h

private theorem gives_throw (e : Error) : (throw e : Reader α).Gives P := by
  intro cs b rest hread
  cases hread

private theorem Gives.bind {read : Reader α} {next : α → Reader β} (h : read.Gives P)
    (hnext : ∀ a, P a → (next a).Gives Q) : (read >>= next).Gives Q := by
  intro cs b rest hread
  obtain ⟨a, more, ha, hb⟩ := bind_eq_ok hread
  exact hnext a (h cs a more ha) more b rest hb

/-- What comes after a reader has the property whatever that one gives. -/
theorem gives_bind {read : Reader α} {next : α → Reader β} (hnext : ∀ a, (next a).Gives Q) :
    (read >>= next).Gives Q :=
  (gives_trivial read).bind fun a _ ↦ hnext a

end Reader

/-! ## Times of day -/

private theorem numberIn_gives (low high : Nat) :
    (numberIn low high).Gives fun n ↦ low ≤ n ∧ n ≤ high := by
  refine Reader.gives_bind fun _ ↦ Reader.gives_bind fun n ↦ ?_
  split
  · next h => exact Reader.gives_pure h
  · exact Reader.gives_throw _

/-- Digits behind a number are worth less than a power of ten more. -/
theorem ofDigitChars_lt (h : ∀ c ∈ cs, c.isDigit = true) (n : Nat) :
    Nat.ofDigitChars 10 cs n < (n + 1) * 10 ^ cs.length := by
  induction cs generalizing n with
  | nil => simp
  | cons c cs ih =>
    obtain ⟨hc, hcs⟩ := List.forall_mem_cons.mp h
    have hdigit : c.toNat - '0'.toNat ≤ 9 := by
      have hrange : '0'.toNat ≤ c.toNat ∧ c.toNat ≤ '9'.toNat := Char.isDigit_iff_toNat.mp hc
      exact Nat.sub_le_of_le_add hrange.2
    have hle : 10 * n + (c.toNat - '0'.toNat) + 1 ≤ (n + 1) * 10 := by omega
    rw [Nat.ofDigitChars_cons, List.length_cons, Nat.pow_succ', ← Nat.mul_assoc]
    exact Nat.lt_of_lt_of_le (ih hcs _) (Nat.mul_le_mul_right _ hle)

/-- A number is worth less than the power of ten of the digits that are taken. -/
theorem number_eq_ok (h : (number width).run cs = .ok (n, rest)) :
    ∃ digits, cs = digits ++ rest ∧ digits.length ≤ width ∧ n < 10 ^ digits.length := by
  rw [number, Reader.get_bind] at h
  simp only at h
  have hprefix : (cs.take width).takeWhile Char.isDigit <+: cs :=
    (List.takeWhile_prefix _).trans (List.take_prefix width cs)
  have hlength : ((cs.take width).takeWhile Char.isDigit).length ≤ width :=
    Nat.le_trans (List.takeWhile_prefix _).length_le (List.length_take_le ..)
  split at h
  · cases h
  split at h
  · cases h
  split at h
  · cases h
  · cases h
    refine ⟨_, (List.prefix_iff_eq_append.mp hprefix).symm, hlength, ?_⟩
    have hdigits : ∀ c ∈ (cs.take width).takeWhile Char.isDigit, c.isDigit = true :=
      fun c hc ↦ List.mem_takeWhile_imp hc
    have hlt := ofDigitChars_lt hdigits 0
    rwa [Nat.zero_add, Nat.one_mul, ← valueOf_eq] at hlt

private theorem fraction_gives : fraction.Gives (· < 1000000000) := by
  intro cs a rest h
  rw [fraction, Reader.get_bind] at h
  split at h
  · next cs =>
    rw [Reader.set_bind] at h
    obtain ⟨n, more, hnumber, h⟩ := Reader.bind_eq_ok h
    obtain ⟨digits, rfl, hlength, hn⟩ := number_eq_ok hnumber
    rw [Reader.get_bind] at h
    obtain ⟨-, _, -, h⟩ := Reader.bind_eq_ok h
    cases h
    have hwidth : (digits ++ more).length - more.length = digits.length := by
      rw [List.length_append, Nat.add_sub_cancel]
    rw [hwidth]
    calc n * 10 ^ (9 - digits.length)
        < 10 ^ digits.length * 10 ^ (9 - digits.length) :=
          Nat.mul_lt_mul_of_pos_right hn (Nat.pow_pos (by decide))
      _ = 1000000000 := by
          rw [← Nat.pow_add, Nat.add_sub_cancel' hlength]
  · cases h
    decide

/-- A second of a day and nanoseconds that can be written. -/
def IsTime (t : Nat × Nat) : Prop :=
  t.1 < 86400 ∧ (t.2 < 1000000000 ∨ t.2 < 2000000000 ∧ t.1 % 60 = 59)

private theorem time_gives : time.Gives IsTime := by
  refine (numberIn_gives 0 23).bind fun hour hhour ↦ Reader.gives_bind fun _ ↦ ?_
  refine (numberIn_gives 0 59).bind fun minute hminute ↦ Reader.gives_bind fun _ ↦ ?_
  refine (numberIn_gives 0 60).bind fun second hsecond ↦ ?_
  refine fraction_gives.bind fun nanos hnanos ↦ Reader.gives_bind fun _ ↦ Reader.gives_pure ?_
  simp only [IsTime]
  by_cases hleap : second = 60
  · rw [if_pos hleap]
    omega
  · rw [if_neg hleap]
    omega

/-! ## Offsets -/

private theorem numericOffset_gives : numericOffset.Gives (· % 60 = 0) := by
  refine Reader.gives_bind fun sign ↦ Reader.gives_bind fun hours ↦ Reader.gives_bind fun _ ↦
    Reader.gives_bind fun minutes ↦ ?_
  split
  · exact Reader.gives_throw _
  · refine Reader.gives_pure ?_
    rw [Int.natCast_mul, ← Int.mul_assoc]
    exact Int.mul_emod_left _ _

private theorem offset_gives : offset.Gives (· % 60 = 0) := by
  refine Reader.gives_bind fun cs ↦ ?_
  split
  · exact Reader.gives_bind fun _ ↦ Reader.gives_pure rfl
  split
  · exact Reader.gives_bind fun _ ↦ Reader.gives_pure rfl
  · exact Reader.gives_bind fun _ ↦ Reader.gives_pure rfl
  · exact numericOffset_gives

/-! ## Instants -/

private theorem isWritable_of_ofLocal {date : Date} {second nanos : Nat} {offset : Int}
    {i : Instant} (htime : IsTime (second, nanos)) (hoffset : offset % 60 = 0)
    (h : ofLocal date second nanos offset = .ok i) : i.IsWritable := by
  rw [ofLocal] at h
  split at h
  · cases h
  simp only at h
  rw [Int.fdiv_eq_ediv_of_nonneg _ (by decide)] at h
  split at h
  · next hdate =>
    cases h
    obtain ⟨hsecond, hnanos⟩ := htime
    refine ⟨hdate, ?_, ?_⟩
    · simp only
      omega
    · rcases hnanos with hnanos | ⟨hnanos, hleap⟩
      · exact .inl hnanos
      · refine .inr ⟨hnanos, ?_⟩
        simp only at hleap ⊢
        omega
  · cases h

/-- What is read as an instant can be written. -/
theorem isWritable_of_parse {text : String} {i : Instant} (h : parse text = .ok i) :
    i.IsWritable := by
  have hgives : instant.Gives IsWritable := by
    refine Reader.gives_bind fun date ↦ Reader.gives_bind fun _ ↦ ?_
    refine time_gives.bind fun t htime ↦ offset_gives.bind fun offset hoffset ↦ ?_
    refine Reader.gives_bind fun _ ↦ Reader.gives_bind fun cs ↦ ?_
    split
    · exact Reader.gives_throw _
    · intro cs i rest h
      cases hlocal : ofLocal date t.1 t.2 offset with
      | error e =>
        rw [hlocal] at h
        cases h
      | ok i' =>
        rw [hlocal] at h
        cases h
        exact isWritable_of_ofLocal htime hoffset hlocal
  rw [parse] at h
  cases hrun : instant.run text.toList with
  | error e =>
    rw [hrun] at h
    cases h
  | ok result =>
    rw [hrun] at h
    cases h
    exact hgives _ _ _ hrun

end Harvest.Instant

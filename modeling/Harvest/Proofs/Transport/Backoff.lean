import Harvest.Transport.Retry

/-!
# Delays against the exact formula

Delays are meant to start at the initial one, to be multiplied before each further retry, and to
end at the longest. The factor that a delay is multiplied by is bounded, though: a delay that the
greatest factor does not bring up to the longest one stays where it is from there on. So the delays
of a policy are exact up to the retry whose power exceeds the greatest factor, and exact for every
retry only where that factor is enough.
Design: `SPEC_FULL.md:115–117`.
-/

namespace Harvest.Transport.Policy

/-- The delay before a retry in nanoseconds, by the formula and with no bound but the longest
delay. -/
def exactDelay (p : Policy) (retry : Nat) : Nat :=
  min (p.initial.nanos * p.multiplier ^ (retry - 1)) p.longest.nanos

/-- The delay after a number of retries in nanoseconds, each one grown from the one before. -/
def grownDelay (p : Policy) : Nat → Nat
  | 0 => min p.initial.nanos p.longest.nanos
  | retries + 1 => min (p.grownDelay retries * p.multiplier) p.longest.nanos

variable {p : Policy} {retry : Nat}

/-- To grow the delays one from another gives those of the formula. -/
theorem grownDelay_eq (p : Policy) (retries : Nat) :
    p.grownDelay retries = p.exactDelay (retries + 1) := by
  induction retries with
  | zero => simp [grownDelay, exactDelay]
  | succ retries ih =>
    have hpow : p.initial.nanos * p.multiplier ^ (retries + 1) =
        p.initial.nanos * p.multiplier ^ retries * p.multiplier := by
      rw [Nat.pow_succ, Nat.mul_assoc]
    simp only [grownDelay, ih, exactDelay, Nat.add_sub_cancel, hpow]
    obtain hzero | hpos := Nat.eq_zero_or_pos p.multiplier
    · simp [hzero]
    · -- What has been cut off at the longest delay stays there when it is multiplied.
      have hle : p.longest.nanos ≤ p.longest.nanos * p.multiplier :=
        Nat.le_mul_of_pos_right _ hpos
      rw [← Nat.mul_min_mul_right, Nat.min_assoc, Nat.min_eq_right hle]

/-! ## Factors -/

/-- A power with 32 factors or more, none of them below two, exceeds the greatest factor. -/
theorem greatestFactor_lt_pow {multiplier exponent : Nat} (hm : 2 ≤ multiplier)
    (he : 32 ≤ exponent) : greatestFactor < multiplier ^ exponent := by
  calc greatestFactor < 2 ^ 32 := by decide
    _ ≤ 2 ^ exponent := Nat.pow_le_pow_right (by decide) he
    _ ≤ multiplier ^ exponent := Nat.pow_le_pow_left hm exponent

/-- The factor is the power of the multiplier up to the greatest factor, however many factors it
has. -/
theorem factor_eq (p : Policy) (exponent : Nat) :
    p.factor exponent = min (p.multiplier ^ exponent) greatestFactor := by
  rw [factor]
  obtain he | he := Nat.le_total exponent 32
  · rw [Nat.min_eq_left he]
  · rw [Nat.min_eq_right he]
    obtain hzero | hone | htwo : p.multiplier = 0 ∨ p.multiplier = 1 ∨ 2 ≤ p.multiplier := by
      omega
    · simp [hzero, show 0 < exponent by omega]
    · simp [hone]
    · have h32 := greatestFactor_lt_pow htwo (Nat.le_refl 32)
      have hexp := greatestFactor_lt_pow htwo he
      omega

/-! ## Delays -/

/-- A delay is the initial one times the factor, up to the longest delay. -/
theorem nanos_delay (hp : p.longest ≤ .longest) :
    (p.delay retry).nanos =
      min (p.initial.nanos * min (p.multiplier ^ (retry - 1)) greatestFactor) p.longest.nanos := by
  rw [Duration.le_iff] at hp
  rw [delay, Duration.nanos_min, Duration.scale, factor_eq, Nat.min_assoc, Nat.min_eq_right hp]

/-- A delay whose power is within the greatest factor is exact. -/
theorem delay_of_le (hp : p.longest ≤ .longest)
    (h : p.multiplier ^ (retry - 1) ≤ greatestFactor) :
    (p.delay retry).nanos = p.exactDelay retry := by
  rw [nanos_delay hp, exactDelay, Nat.min_eq_left h]

/-- A delay whose power is beyond it is what the greatest factor makes of the initial one. -/
theorem delay_of_lt (hp : p.longest ≤ .longest)
    (h : greatestFactor < p.multiplier ^ (retry - 1)) :
    (p.delay retry).nanos = min (p.initial.nanos * greatestFactor) p.longest.nanos := by
  rw [nanos_delay hp, Nat.min_eq_right (Nat.le_of_lt h)]

/-- The greatest factor is enough where there is nothing to multiply, or where it brings the delay
up to the longest one. -/
def Suffices (p : Policy) : Prop :=
  p.initial.nanos = 0 ∨ p.longest.nanos ≤ p.initial.nanos * greatestFactor

/-- Beyond the greatest factor a delay is exact where that factor is enough. -/
theorem delay_of_suffices (hp : p.longest ≤ .longest)
    (h : greatestFactor < p.multiplier ^ (retry - 1)) (hs : p.Suffices) :
    (p.delay retry).nanos = p.exactDelay retry := by
  rw [delay_of_lt hp h, exactDelay]
  obtain hzero | hle := hs
  · simp [hzero]
  · have hmul := Nat.mul_le_mul_left p.initial.nanos (Nat.le_of_lt h)
    rw [Nat.min_eq_right hle, Nat.min_eq_right (Nat.le_trans hle hmul)]

/-- Where it is not, the delay is too short. -/
theorem delay_lt_exactDelay (hp : p.longest ≤ .longest)
    (h : greatestFactor < p.multiplier ^ (retry - 1)) (hs : ¬ p.Suffices) :
    (p.delay retry).nanos = p.initial.nanos * greatestFactor ∧
      (p.delay retry).nanos < p.exactDelay retry := by
  rw [Suffices, not_or, Nat.not_le] at hs
  obtain ⟨hpos, hlt⟩ := hs
  have hmul := Nat.mul_lt_mul_of_pos_left h (Nat.pos_of_ne_zero hpos)
  have hdelay : (p.delay retry).nanos = p.initial.nanos * greatestFactor := by
    rw [delay_of_lt hp h, Nat.min_eq_left (Nat.le_of_lt hlt)]
  refine ⟨hdelay, ?_⟩
  rw [hdelay, exactDelay]
  omega

/-- A delay is the one of the formula, which is also the one that the delays grow to, exactly where
the power is within the greatest factor or that factor is enough; else it is shorter. So the delays
of a policy are exact for every retry only where the multiplier makes nothing grow or the greatest
factor is enough. -/
theorem delay_eq_exactDelay_iff (p : Policy) (hp : p.longest ≤ .longest) :
    (∀ retry, (p.delay retry).nanos = p.exactDelay retry ↔
      p.multiplier ^ (retry - 1) ≤ greatestFactor ∨ p.Suffices) ∧
    (∀ retry, (p.delay retry).nanos ≤ p.exactDelay retry) ∧
    ((∀ retry, (p.delay retry).nanos = p.exactDelay retry) ↔ p.multiplier ≤ 1 ∨ p.Suffices) ∧
    ∀ retries, p.grownDelay retries = p.exactDelay (retries + 1) := by
  have hexact (retry : Nat) : (p.delay retry).nanos = p.exactDelay retry ↔
      p.multiplier ^ (retry - 1) ≤ greatestFactor ∨ p.Suffices := by
    constructor
    · intro heq
      refine Classical.byContradiction fun hnot ↦ ?_
      rw [not_or, Nat.not_le] at hnot
      have hshort := (delay_lt_exactDelay hp hnot.1 hnot.2).2
      omega
    · rintro (hle | hs)
      · exact delay_of_le hp hle
      · obtain hlt | hle := Nat.lt_or_ge greatestFactor (p.multiplier ^ (retry - 1))
        · exact delay_of_suffices hp hlt hs
        · exact delay_of_le hp hle
  refine ⟨hexact, fun retry ↦ ?_, ⟨fun hall ↦ ?_, ?_⟩, p.grownDelay_eq⟩
  · by_cases h : (p.delay retry).nanos = p.exactDelay retry
    · exact Nat.le_of_eq h
    · rw [hexact, not_or, Nat.not_le] at h
      exact Nat.le_of_lt (delay_lt_exactDelay hp h.1 h.2).2
  · -- The 33rd retry is the first whose power has 32 factors.
    obtain hle | hs := (hexact 33).mp (hall 33)
    · refine .inl (Nat.le_of_not_lt fun hm ↦ ?_)
      exact absurd hle (Nat.not_le.mpr (greatestFactor_lt_pow hm (Nat.le_refl 32)))
    · exact .inr hs
  · rintro (hm | hs) retry
    · have hone : p.multiplier ^ (retry - 1) ≤ 1 := by
        simpa using Nat.pow_le_pow_left hm (retry - 1)
      exact (hexact retry).mpr (.inl (Nat.le_trans hone (by decide)))
    · exact (hexact retry).mpr (.inr hs)

/-- From one nanosecond on, doubled up to 10 seconds: the delay before the 35th retry should be the
longest one and is less than half of it. -/
theorem delay_eq_exactDelay_iff_doubled :
    let p : Policy := ⟨⟨1⟩, .ofSecs 10, 2, 50⟩
    p.longest ≤ .longest ∧ p.delay 35 = .mk' 4 294967295 ∧ p.exactDelay 35 = 10000000000 ∧
      (p.delay 35).nanos ≠ p.exactDelay 35 ∧
      ¬ ∀ retry, (p.delay retry).nanos = p.exactDelay retry := by
  have hp : (⟨⟨1⟩, .ofSecs 10, 2, 50⟩ : Policy).longest ≤ .longest := by decide
  obtain ⟨hexact, -, hall, -⟩ := delay_eq_exactDelay_iff ⟨⟨1⟩, .ofSecs 10, 2, 50⟩ hp
  have hsuffices : ¬ (⟨⟨1⟩, .ofSecs 10, 2, 50⟩ : Policy).Suffices := by
    rw [Suffices]
    decide
  refine ⟨hp, by decide, by decide, fun h ↦ ?_, fun h ↦ ?_⟩
  · obtain hle | hs := (hexact 35).mp h
    · exact absurd hle (by decide)
    · exact hsuffices hs
  · obtain hle | hs := hall.mp h
    · exact absurd hle (by decide)
    · exact hsuffices hs

end Harvest.Transport.Policy

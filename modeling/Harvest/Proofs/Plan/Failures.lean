import Harvest.Proofs.Plan.Division

/-!
# When planning fails

Planning fails where a limit is zero, and where nothing is left behind the skipped records. It
panics where the splits that a request comes to take more room than can be asked for at once.
Nothing else that a request asks for counts: however many records, splits or records at a time it
wants, there is a plan, and a large number of records to fetch does not make up for a skip that is
too large.
Design: `SPEC_FULL.md:86–88,132,162,178`.
-/

namespace Harvest.Plan

/-- The first limit that is zero, by the name that messages use: those before it are positive. -/
inductive Limits.FirstZero (l : Limits) : String → Prop
  | defaultSplitCount : l.defaultSplitCount = 0 → l.FirstZero "default_split_count"
  | maxSplitCount : 0 < l.defaultSplitCount → l.maxSplitCount = 0 → l.FirstZero "max_split_count"
  | defaultBatchSize : 0 < l.defaultSplitCount → 0 < l.maxSplitCount → l.defaultBatchSize = 0 →
      l.FirstZero "default_batch_size"
  | maxBatchSize : 0 < l.defaultSplitCount → 0 < l.maxSplitCount → 0 < l.defaultBatchSize →
      l.maxBatchSize = 0 → l.FirstZero "max_batch_size"

section

variable {l : Limits} {r : Request} {limit : String}

namespace Limits

/-- Limits of which one is zero are not all positive. -/
theorem FirstZero.not_positive (h : l.FirstZero limit) : ¬ l.Positive := by
  intro hl
  have h₁ := hl.defaultSplitCount
  have h₂ := hl.maxSplitCount
  have h₃ := hl.defaultBatchSize
  have h₄ := hl.maxBatchSize
  cases h <;> omega

/-- The search through the limits stops at the first one that is zero. -/
theorem FirstZero.firstZero?_eq (h : l.FirstZero limit) : l.firstZero? = some limit := by
  cases h with
  | defaultSplitCount h₁ => simp [firstZero?, fields, h₁]
  | maxSplitCount h₁ h₂ => simp [firstZero?, fields, h₂, Nat.ne_of_gt h₁]
  | defaultBatchSize h₁ h₂ h₃ => simp [firstZero?, fields, h₃, Nat.ne_of_gt h₁, Nat.ne_of_gt h₂]
  | maxBatchSize h₁ h₂ h₃ h₄ =>
    simp [firstZero?, fields, h₄, Nat.ne_of_gt h₁, Nat.ne_of_gt h₂, Nat.ne_of_gt h₃]

/-- Among limits that are not all positive there is a first zero. -/
theorem exists_firstZero (h : ¬ l.Positive) : ∃ limit, l.FirstZero limit := by
  by_cases h₁ : l.defaultSplitCount = 0
  · exact ⟨_, .defaultSplitCount h₁⟩
  by_cases h₂ : l.maxSplitCount = 0
  · exact ⟨_, .maxSplitCount (by omega) h₂⟩
  by_cases h₃ : l.defaultBatchSize = 0
  · exact ⟨_, .defaultBatchSize (by omega) (by omega) h₃⟩
  by_cases h₄ : l.maxBatchSize = 0
  · exact ⟨_, .maxBatchSize (by omega) (by omega) (by omega) h₄⟩
  · exact absurd ⟨by omega, by omega, by omega, by omega⟩ h

/-- The search finds a limit exactly where it is the first one that is zero. -/
theorem firstZero?_eq_some_iff : l.firstZero? = some limit ↔ l.FirstZero limit := by
  constructor
  · intro h
    have hl : ¬ l.Positive := by simp [← firstZero?_eq_none_iff, h]
    obtain ⟨first, hfirst⟩ := exists_firstZero hl
    obtain rfl : first = limit := by simpa [hfirst.firstZero?_eq] using h
    exact hfirst
  · exact FirstZero.firstZero?_eq

end Limits

/-- Nothing is extracted exactly where all that is available is skipped. -/
theorem Request.toExtract_eq_zero_iff (ha : r.available < greatestCount) :
    r.toExtract = 0 ↔ r.available ≤ r.skip := by
  rw [toExtract_eq_extent ha, extent]
  split <;> omega

/-- A limit is blamed exactly where it is the first one that is zero, whatever the request. -/
theorem plan_eq_invalidLimits_iff :
    plan l r = .error (.refused (.invalidLimits limit)) ↔ l.FirstZero limit := by
  rw [plan_eq, ← Limits.firstZero?_eq_some_iff]
  cases l.firstZero? with
  | some first => simp
  | none =>
    by_cases hr : r.toExtract = 0
    · simp [hr]
    · by_cases hroom : (layout l r).overflows = true <;> simp [hr, hroom]

/-- The range is blamed, with the numbers of the request, exactly where all limits are positive and
nothing is left to extract. -/
theorem plan_eq_invalidRange_iff {available skip fetch : Nat} :
    plan l r = .error (.refused (.invalidRange available skip fetch)) ↔
      l.Positive ∧ r.toExtract = 0 ∧
        available = r.available ∧ skip = r.skip ∧ fetch = r.fetch := by
  rw [plan_eq, ← Limits.firstZero?_eq_none_iff]
  cases l.firstZero? with
  | some first => simp
  | none =>
    by_cases hr : r.toExtract = 0
    · simp [hr, eq_comm]
    · by_cases hroom : (layout l r).overflows = true <;> simp [hr, hroom]

/-- Planning panics exactly where all limits are positive, something is left to extract, and the
splits take more room than can be asked for. -/
theorem plan_eq_capacityOverflow_iff (ha : r.available < greatestCount) :
    plan l r = .error .capacityOverflow ↔
      l.Positive ∧ r.skip < r.available ∧ r.Overflows l := by
  constructor
  · intro h
    have hl : l.Positive := by
      by_contra hl
      obtain ⟨limit, hlimit⟩ := Limits.exists_firstZero hl
      rw [plan_eq_invalidLimits_iff.mpr hlimit] at h
      cases h
    have hs : r.skip < r.available := by
      by_contra hs
      have hnone := (Request.toExtract_eq_zero_iff ha).mpr (Nat.le_of_not_lt hs)
      rw [plan_eq_invalidRange_iff.mpr ⟨hl, hnone, rfl, rfl, rfl⟩] at h
      cases h
    refine ⟨hl, hs, ?_⟩
    by_contra hfits
    rw [plan_of_not_overflows hl ha hs hfits] at h
    cases h
  · rintro ⟨hl, hs, hover⟩
    exact plan_of_overflows hl ha hs hover

end

/-- Planning fails for a zero among the limits, naming the first one, or else for a skip that
leaves nothing, telling the numbers of the request, and it panics for splits that overflow; any
other request has a plan. -/
theorem plan_fails_iff {l : Limits} {r : Request} (ha : r.available < greatestCount) :
    ((∃ limit, plan l r = .error (.refused (.invalidLimits limit))) ↔ ¬ l.Positive) ∧
    (∀ limit, plan l r = .error (.refused (.invalidLimits limit)) ↔ l.FirstZero limit) ∧
    (∀ available skip fetch, plan l r = .error (.refused (.invalidRange available skip fetch)) ↔
      l.Positive ∧ r.available ≤ r.skip ∧
        available = r.available ∧ skip = r.skip ∧ fetch = r.fetch) ∧
    (plan l r = .error .capacityOverflow ↔
      l.Positive ∧ r.skip < r.available ∧ r.Overflows l) ∧
    ((∃ splits, plan l r = .ok splits) ↔
      l.Positive ∧ r.skip < r.available ∧ ¬ r.Overflows l) := by
  have hnothing := Request.toExtract_eq_zero_iff ha
  refine ⟨?_, fun _ ↦ plan_eq_invalidLimits_iff, fun _ _ _ ↦ ?_, ?_, ?_⟩
  · simp only [plan_eq_invalidLimits_iff]
    exact ⟨fun ⟨_, h⟩ ↦ h.not_positive, Limits.exists_firstZero⟩
  · rw [plan_eq_invalidRange_iff, hnothing]
  · exact plan_eq_capacityOverflow_iff ha
  · constructor
    · rintro ⟨splits, hplan⟩
      obtain ⟨hl, hr, -, -⟩ := plan_eq_ok_iff.mp hplan
      have hs : r.skip < r.available := by omega
      refine ⟨hl, hs, fun hover ↦ ?_⟩
      rw [plan_of_overflows hl ha hs hover] at hplan
      cases hplan
    · rintro ⟨hl, hs, hfits⟩
      exact ⟨_, plan_of_not_overflows hl ha hs hfits⟩

/-- The greatest count to fetch does not make up for a skip of all that is available, nor does it
spoil a plan for the last record. Limits and a request of 10 ^ 18 splits are accepted, and
planning panics. -/
theorem plan_fails_iff_greatest :
    plan ⟨3, 4, 10, 20⟩ ⟨50, greatestCount, 50, 3, 7⟩ =
      .error (.refused (.invalidRange 50 50 greatestCount)) ∧
    (∃ splits, plan ⟨3, 4, 10, 20⟩ ⟨50, greatestCount, 49, 3, 7⟩ = .ok splits) ∧
    plan ⟨3, 0, 10, 0⟩ ⟨50, 0, 60, 0, 0⟩ = .error (.refused (.invalidLimits "max_split_count")) ∧
    plan ⟨8, 10 ^ 18, 2500, 5000⟩ ⟨10 ^ 18, 0, 0, 10 ^ 18, 0⟩ = .error .capacityOverflow :=
  have hl : Limits.Positive ⟨3, 4, 10, 20⟩ := ⟨by decide, by decide, by decide, by decide⟩
  ⟨((plan_fails_iff (by decide)).2.2.1 _ _ _).mpr ⟨hl, by decide, rfl, rfl, rfl⟩,
    (plan_fails_iff (by decide)).2.2.2.2.mpr ⟨hl, by decide, by decide⟩,
    ((plan_fails_iff (by decide)).2.1 _).mpr (.maxSplitCount (by decide) rfl),
    (plan_fails_iff (by decide)).2.2.2.1.mpr
      ⟨⟨by decide, by decide, by decide, by decide⟩, by decide, by decide⟩⟩

end Harvest.Plan

import Harvest.Plan.Layout
import Mathlib.Data.List.Chain
import Mathlib.Data.List.Range

/-!
# Plans divide their range evenly

The numbers of a layout fit together, each split has a closed form, and the splits of a successful
plan divide the range of the request: they follow each other without a gap, differ by one record
at most, and the larger ones come first.
Design: `SPEC_FULL.md:79–84,174–176`.
-/

namespace Harvest.Plan

/-! ## When there is a plan -/

/-- No limit is zero. -/
structure Limits.Positive (l : Limits) : Prop where
  defaultSplitCount : 0 < l.defaultSplitCount
  maxSplitCount : 0 < l.maxSplitCount
  defaultBatchSize : 0 < l.defaultBatchSize
  maxBatchSize : 0 < l.maxBatchSize

/-- The number of records that a request is about: all behind the skipped ones, or as many as it
asks for where there are that many. -/
def Request.extent (r : Request) : Nat :=
  if r.fetch = 0 then r.available - r.skip else min r.fetch (r.available - r.skip)

/-- The number of splits that a request comes to: one where a default batch holds all records, else
as many as it asks for, within the cap, and no more than there are records. -/
def Request.splitTotal (r : Request) (l : Limits) : Nat :=
  if r.extent ≤ l.defaultBatchSize then 1
  else min (min (orDefault r.splitCount l.defaultSplitCount) l.maxSplitCount) r.extent

/-- Whether the splits that a request comes to, of 24 bytes each, take more than the bytes that room
can be asked for at once. -/
def Request.Overflows (r : Request) (l : Limits) : Prop := 2 ^ 63 - 1 < 24 * r.splitTotal l

instance (r : Request) (l : Limits) : Decidable (r.Overflows l) :=
  inferInstanceAs (Decidable (2 ^ 63 - 1 < 24 * r.splitTotal l))

section

variable {l : Limits} {r : Request} {splits : List Split}

/-- No limit is found to be zero exactly where all are positive. -/
theorem Limits.firstZero?_eq_none_iff : l.firstZero? = none ↔ l.Positive := by
  constructor
  · intro h
    have hall : ∀ f ∈ l.fields, ¬ (f.2 == 0) := by simpa [firstZero?] using h
    simp only [fields, List.mem_cons, List.not_mem_nil, or_false, forall_eq_or_imp, forall_eq,
      beq_iff_eq] at hall
    exact ⟨by omega, by omega, by omega, by omega⟩
  · rintro ⟨h₁, h₂, h₃, h₄⟩
    simp only [firstZero?, fields, Option.map_eq_none_iff, List.find?_eq_none, List.mem_cons,
      List.not_mem_nil, or_false, forall_eq_or_imp, forall_eq, beq_iff_eq]
    omega

/-- The saturated comparison settles on the extent of the request. -/
theorem Request.toExtract_eq_extent (ha : r.available < greatestCount) :
    r.toExtract = r.extent := by
  unfold toExtract extent wanted orDefault remaining saturatingAdd
  split <;> split <;> omega

/-- A request that leaves something to extract is about at least one record. -/
theorem Request.extent_pos (hs : r.skip < r.available) : 0 < r.extent := by
  unfold extent
  split <;> omega

/-- The last record to extract is one of those available. -/
theorem Request.skip_add_toExtract_le (ha : r.available < greatestCount)
    (hr : 0 < r.toExtract) : r.skip + r.toExtract ≤ r.available := by
  rw [toExtract_eq_extent ha] at hr ⊢
  have hle : r.extent ≤ r.available - r.skip := by
    unfold extent
    split <;> omega
  omega

/-- The ways in which planning ends, in the order in which they are tried. -/
theorem plan_eq (l : Limits) (r : Request) : plan l r =
    match l.firstZero? with
    | some limit => .error (.refused (.invalidLimits limit))
    | none =>
      if r.toExtract = 0 then .error (.refused (.invalidRange r.available r.skip r.fetch))
      else if (layout l r).overflows then .error .capacityOverflow
      else .ok (layout l r).splits := by
  unfold plan layout?
  cases l.firstZero? with
  | some limit => rfl
  | none => by_cases hr : r.toExtract = 0 <;> simp only [hr, if_true, if_false]

/-- Where all limits are positive and there is something to extract, the room for the splits
decides. -/
theorem plan_of_positive (hl : l.Positive) (hr : 0 < r.toExtract) : plan l r =
    if (layout l r).overflows then .error .capacityOverflow else .ok (layout l r).splits := by
  rw [plan_eq, Limits.firstZero?_eq_none_iff.mpr hl]
  exact if_neg (Nat.ne_of_gt hr)

/-- There is a plan exactly where all limits are positive, there is something to extract, and there
is room for the splits. -/
theorem plan_eq_ok_iff : plan l r = .ok splits ↔ l.Positive ∧ 0 < r.toExtract ∧
    (layout l r).overflows = false ∧ splits = (layout l r).splits := by
  rw [plan_eq, ← Limits.firstZero?_eq_none_iff]
  cases l.firstZero? with
  | some limit => simp
  | none =>
    by_cases hr : r.toExtract = 0
    · simp [hr]
    · by_cases hroom : (layout l r).overflows = true <;>
        simp [hr, hroom, Nat.pos_of_ne_zero hr, eq_comm]

end

/-! ## The numbers of a layout -/

/-- The numbers of a layout fit together: the even shares and the leftover records make up the
total, and a batch is neither empty nor larger than a share. -/
structure Layout.Sound (l : Layout) : Prop where
  splitCount_pos : 0 < l.splitCount
  perSplit_pos : 0 < l.perSplit
  leftover_lt : l.leftover < l.splitCount
  total_eq : l.splitCount * l.perSplit + l.leftover = l.total
  batch_pos : 0 < l.batch
  batch_le : l.batch ≤ l.perSplit

section

variable {l : Limits} {r : Request}

/-- A batch is never empty. -/
theorem batchSize_pos (hl : l.Positive) (hr : 0 < r.toExtract) : 0 < batchSize l r := by
  have := hl.defaultBatchSize
  have := hl.maxBatchSize
  unfold batchSize orDefault
  split <;> omega

/-- There is at least one split. -/
theorem splitCount_pos (hl : l.Positive) (hr : 0 < r.toExtract) : 0 < splitCount l r := by
  have := hl.defaultSplitCount
  have := hl.maxSplitCount
  unfold splitCount orDefault
  dsimp only
  split
  · omega
  · split <;> omega

/-- There are no more splits than records. -/
theorem splitCount_le : splitCount l r ≤ r.toExtract := by
  unfold splitCount
  dsimp only
  omega

/-- The number of splits: one where a default batch holds all records, else what is asked for, but
neither more than the cap nor more than there are records. -/
theorem splitCount_eq (hl : l.Positive) (hr : 0 < r.toExtract) :
    splitCount l r =
      if r.toExtract ≤ l.defaultBatchSize then 1
      else min (min (orDefault r.splitCount l.defaultSplitCount) l.maxSplitCount) r.toExtract := by
  have hcap := hl.maxSplitCount
  -- A batch is no larger than the range, so the range alone decides.
  have hbatch : batchSize l r ≤ r.toExtract := by
    unfold batchSize
    omega
  unfold splitCount
  by_cases hsmall : r.toExtract ≤ l.defaultBatchSize
  · have hboth : batchSize l r ≤ l.defaultBatchSize ∧ r.toExtract ≤ l.defaultBatchSize :=
      ⟨Nat.le_trans hbatch hsmall, hsmall⟩
    rw [if_pos hboth, if_pos hsmall]
    dsimp only
    omega
  · rw [if_neg (fun h ↦ hsmall h.2), if_neg hsmall]

/-- The splits of a layout overflow where those of the request do. -/
theorem overflows_layout_iff (hl : l.Positive) (ha : r.available < greatestCount)
    (hr : 0 < r.toExtract) : (layout l r).overflows = true ↔ r.Overflows l := by
  have hcount : (layout l r).splitCount = r.splitTotal l := by
    rw [Request.splitTotal, ← Request.toExtract_eq_extent ha]
    exact splitCount_eq hl hr
  rw [Layout.overflows, hcount, decide_eq_true_iff]
  rfl

/-- Where something is left to extract, the room for the splits decides whether there is a plan. -/
private theorem plan_of_lt (hl : l.Positive) (ha : r.available < greatestCount)
    (hs : r.skip < r.available) : plan l r =
      if r.Overflows l then .error .capacityOverflow else .ok (layout l r).splits := by
  have hr : 0 < r.toExtract := by
    rw [Request.toExtract_eq_extent ha]
    exact Request.extent_pos hs
  simp only [plan_of_positive hl hr, overflows_layout_iff hl ha hr]

/-- Where something is left to extract and there is room for the splits, they are the plan. -/
theorem plan_of_not_overflows (hl : l.Positive) (ha : r.available < greatestCount)
    (hs : r.skip < r.available) (hfits : ¬ r.Overflows l) :
    plan l r = .ok (layout l r).splits :=
  (plan_of_lt hl ha hs).trans (if_neg hfits)

/-- Where something is left to extract and there is no room for the splits, planning panics. -/
theorem plan_of_overflows (hl : l.Positive) (ha : r.available < greatestCount)
    (hs : r.skip < r.available) (hover : r.Overflows l) : plan l r = .error .capacityOverflow :=
  (plan_of_lt hl ha hs).trans (if_pos hover)

/-- A layout within positive limits is sound. -/
theorem layout_sound (hl : l.Positive) (hr : 0 < r.toExtract) : (layout l r).Sound := by
  have hcount := splitCount_pos hl hr
  have hshare : 0 < r.toExtract / splitCount l r := Nat.div_pos splitCount_le hcount
  have hbatch := batchSize_pos hl hr
  constructor
  · exact hcount
  · exact hshare
  · exact Nat.mod_lt _ hcount
  · exact Nat.div_add_mod _ _
  · exact Nat.lt_min.mpr ⟨hshare, hbatch⟩
  · exact Nat.min_le_left _ _

end

namespace Layout

variable {l : Layout} {i j n : Nat}

/-! ## The closed form of a split -/

/-- The records of all splits before split `i`. -/
def before (l : Layout) (i : Nat) : Nat :=
  i * l.perSplit + min i l.leftover

/-- Split `i` of a plan in closed form. -/
def split (l : Layout) (i : Nat) : Split :=
  l.splitFrom i (l.skip + l.before i + 1)

/-- No records come before the first split. -/
theorem before_zero : l.before 0 = 0 := by
  simp [before]

/-- Each split adds its share, and one record where it carries a leftover one. -/
theorem before_succ : l.before (i + 1) = l.before i + (l.perSplit + l.extra i) := by
  unfold before extra
  rw [Nat.succ_mul]
  split <;> omega

/-- All splits together hold all records. -/
theorem before_splitCount (h : l.Sound) : l.before l.splitCount = l.total := by
  have := h.leftover_lt
  rw [before, Nat.min_eq_right (by omega), h.total_eq]

/-- The records before a split are no fewer than those before an earlier one. -/
theorem before_mono (hij : i ≤ j) : l.before i ≤ l.before j := by
  have hshares : i * l.perSplit ≤ j * l.perSplit := Nat.mul_le_mul_right _ hij
  unfold before
  omega

/-- No split starts behind the last record. -/
theorem before_le (h : l.Sound) (hi : i ≤ l.splitCount) : l.before i ≤ l.total := by
  rw [← before_splitCount h]
  exact before_mono hi

private theorem extra_le_one : l.extra i ≤ 1 := by
  unfold extra
  split <;> omega

/-- Leftover records go to the first splits. -/
theorem extra_le (hij : i ≤ j) : l.extra j ≤ l.extra i := by
  unfold extra
  split <;> split <;> omega

/-- A split starts behind the records of the splits before it. -/
theorem split_first : (l.split i).first = l.skip + l.before i + 1 := rfl

/-- A leftover record makes the batch of its split greater by one. -/
theorem split_batch : (l.split i).batch = l.batch + l.extra i := rfl

/-- A split ends where the next one starts. -/
theorem split_last : (l.split i).last = l.skip + l.before (i + 1) := by
  rw [before_succ]
  simp only [split, splitFrom]
  omega

/-- No split is empty. -/
theorem first_le_last (h : l.Sound) : (l.split i).first ≤ (l.split i).last := by
  have := h.perSplit_pos
  rw [split_first, split_last, before_succ]
  omega

/-- A split holds an even share, and one record more where it carries a leftover one. -/
theorem recordCount_split (h : l.Sound) :
    (l.split i).recordCount = l.perSplit + l.extra i := by
  have := h.perSplit_pos
  rw [Split.recordCount, split_first, split_last, before_succ]
  omega

/-- Emitting splits one behind the other gives each its closed form. -/
theorem emit_eq_map (l : Layout) (n i : Nat) :
    l.emit n i (l.skip + l.before i + 1) = (List.range' i n).map l.split := by
  induction n generalizing i with
  | zero => rfl
  | succ n ih =>
    have hnext : (l.splitFrom i (l.skip + l.before i + 1)).last + 1 =
        l.skip + l.before (i + 1) + 1 := congrArg (· + 1) split_last
    simp only [emit, hnext, ih, List.range'_succ, List.map_cons, split]

/-- The splits of a plan in closed form. -/
theorem splits_eq_map (l : Layout) : l.splits = (List.range l.splitCount).map l.split := by
  have h := l.emit_eq_map l.splitCount 0
  rwa [before_zero, Nat.add_zero, ← List.range_eq_range'] at h

/-- There are as many splits as were counted. -/
theorem length_splits : l.splits.length = l.splitCount := by
  simp [splits_eq_map]

/-- The splits of a plan are those at the positions below their number. -/
theorem mem_splits {s : Split} : s ∈ l.splits ↔ ∃ i < l.splitCount, l.split i = s := by
  simp [splits_eq_map]

/-! ## What the splits make up -/

private theorem sum_recordCount (h : l.Sound) (n : Nat) :
    ((List.range n).map fun i ↦ (l.split i).recordCount).sum = l.before n := by
  induction n with
  | zero => simp [before_zero]
  | succ n ih =>
    rw [List.range_succ, List.map_append, List.sum_append, ih, before_succ]
    simp [recordCount_split h]

/-- A leftover record is carried by as many of the first `n` splits as there are records left. -/
theorem countP_extra (l : Layout) (n : Nat) :
    (List.range n).countP (fun i ↦ l.extra i == 1) = min n l.leftover := by
  induction n with
  | zero => simp
  | succ n ih =>
    rw [List.range_succ, List.countP_append, ih, List.countP_singleton]
    unfold extra
    split <;> simp <;> omega

/-- What an even division of the total leaves over. -/
theorem total_mod (h : l.Sound) : l.total % l.splitCount = l.leftover := by
  rw [← h.total_eq, Nat.mul_add_mod, Nat.mod_eq_of_lt h.leftover_lt]

/-- There are as many larger splits as there are leftover records. -/
theorem countP_larger (h : l.Sound) :
    l.splits.countP (·.recordCount == l.perSplit + 1) = l.leftover := by
  have hle := h.leftover_lt
  rw [splits_eq_map, List.countP_map]
  calc (List.range l.splitCount).countP ((·.recordCount == l.perSplit + 1) ∘ l.split)
      = (List.range l.splitCount).countP (fun i ↦ l.extra i == 1) := by
        congr 1
        funext i
        simp [recordCount_split h]
    _ = l.leftover := by rw [countP_extra, Nat.min_eq_right (by omega)]

end Layout

/-! ## Division -/

/-- Splits that divide `total` records behind the first `skip` ones evenly. -/
structure Division (skip total : Nat) (splits : List Split) : Prop where
  ne_nil : splits ≠ []
  head : splits.head?.map (·.first) = some (skip + 1)
  last : splits.getLast?.map (·.last) = some (skip + total)
  /-- Each split starts right behind the one before it. -/
  contiguous : splits.IsChain fun s t ↦ t.first = s.last + 1
  first_le_last : ∀ s ∈ splits, s.first ≤ s.last
  batch_pos : ∀ s ∈ splits, 1 ≤ s.batch
  batch_le : ∀ s ∈ splits, s.batch ≤ s.recordCount
  sum : (splits.map (·.recordCount)).sum = total
  /-- No two splits differ by more than one record. -/
  skew : ∀ s ∈ splits, ∀ t ∈ splits, s.recordCount ≤ t.recordCount + 1
  larger_first : splits.Pairwise fun s t ↦ t.recordCount ≤ s.recordCount
  /-- Where the splits differ, the larger ones are as many as records are left by an even
  division. -/
  larger_count : ∀ s ∈ splits, ∀ t ∈ splits, t.recordCount < s.recordCount →
    splits.countP (·.recordCount == s.recordCount) = total % splits.length

open Layout in
/-- The splits of a sound layout divide its records evenly. -/
theorem Layout.Sound.division {l : Layout} (h : l.Sound) :
    Division l.skip l.total l.splits := by
  have hpos := h.splitCount_pos
  constructor
  · rw [← List.length_pos_iff, length_splits]
    exact hpos
  · simp [splits_eq_map, List.head?_range, Nat.ne_of_gt hpos, split_first, before_zero]
  · have hlast : l.splitCount - 1 + 1 = l.splitCount := by omega
    simp [splits_eq_map, List.getLast?_range, Nat.ne_of_gt hpos, split_last, hlast,
      before_splitCount h]
  · rw [splits_eq_map, List.isChain_map, List.isChain_range]
    intro i _
    rw [split_first, split_last]
  · intro s hs
    obtain ⟨i, _, rfl⟩ := mem_splits.mp hs
    exact first_le_last h
  · intro s hs
    obtain ⟨i, _, rfl⟩ := mem_splits.mp hs
    have := h.batch_pos
    rw [split_batch]
    omega
  · intro s hs
    obtain ⟨i, _, rfl⟩ := mem_splits.mp hs
    have := h.batch_le
    rw [split_batch, recordCount_split h]
    omega
  · rw [splits_eq_map, List.map_map, ← before_splitCount h, ← sum_recordCount h]
    rfl
  · intro s hs t ht
    obtain ⟨i, _, rfl⟩ := mem_splits.mp hs
    obtain ⟨j, _, rfl⟩ := mem_splits.mp ht
    have := l.extra_le_one (i := i)
    rw [recordCount_split h, recordCount_split h]
    omega
  · rw [splits_eq_map, List.pairwise_map]
    refine List.pairwise_lt_range.imp fun {i j} hij ↦ ?_
    rw [recordCount_split h, recordCount_split h]
    exact Nat.add_le_add_left (extra_le (Nat.le_of_lt hij)) _
  · intro s hs t ht hlt
    obtain ⟨i, _, rfl⟩ := mem_splits.mp hs
    obtain ⟨j, _, rfl⟩ := mem_splits.mp ht
    rw [recordCount_split h, recordCount_split h] at hlt
    -- The larger splits are those that carry a leftover record.
    have hextra : l.extra i = 1 := by
      have := l.extra_le_one (i := i)
      omega
    rw [length_splits, total_mod h, recordCount_split h, hextra, countP_larger h]

/-- A successful plan divides the records that the request is about evenly. -/
theorem plan_division {l : Limits} {r : Request} {splits : List Split}
    (ha : r.available < greatestCount) (h : plan l r = .ok splits) :
    Division r.skip r.extent splits := by
  obtain ⟨hl, hr, -, rfl⟩ := plan_eq_ok_iff.mp h
  rw [← Request.toExtract_eq_extent ha]
  exact (layout_sound hl hr).division

/-- A plan whose splits differ: two carry a leftover record, the last one does not. -/
theorem plan_division_uneven :
    plan ⟨3, 4, 10, 20⟩ ⟨106, 0, 5, 0, 0⟩ = .ok [⟨6, 39, 11⟩, ⟨40, 73, 11⟩, ⟨74, 106, 10⟩] ∧
      Division 5 101 [⟨6, 39, 11⟩, ⟨40, 73, 11⟩, ⟨74, 106, 10⟩] :=
  ⟨by decide, plan_division (r := ⟨106, 0, 5, 0, 0⟩) (l := ⟨3, 4, 10, 20⟩) (by decide) (by decide)⟩

end Harvest.Plan

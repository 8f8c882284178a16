import Harvest.Proofs.Plan.Coverage

/-!
# How many splits, and how large their batches

The bounds on a plan are applied one after the other; this is what comes of them. A range that a
default batch holds is one split, any other has the splits asked for within their cap. A batch is
what is asked for within its cap and the share of its split. A leftover record is added behind the
cap, so a page may ask for one record more than the cap, and for no more than that.
Design: `SPEC_FULL.md:71–75,177`.
-/

namespace Harvest.Plan

section

variable {l : Limits} {r : Request}

/-- The batch of a split without a leftover record: the least of its share, what is asked for and
the cap. -/
theorem batch_layout :
    (layout l r).batch =
      min (min (r.toExtract / splitCount l r) (orDefault r.batchSize l.defaultBatchSize))
        l.maxBatchSize := by
  have hshare : r.toExtract / splitCount l r ≤ r.toExtract := Nat.div_le_self _ _
  simp only [layout, batchSize]
  omega

/-- The batch of split `i` of a plan. -/
theorem batch_getElem_splits {i : Nat} (hi : i < (layout l r).splits.length) :
    (layout l r).splits[i].batch =
      min (min (r.toExtract / splitCount l r) (orDefault r.batchSize l.defaultBatchSize))
        l.maxBatchSize + if i < r.toExtract % splitCount l r then 1 else 0 := by
  rw [← batch_layout]
  simp only [Layout.splits_eq_map, List.getElem_map, List.getElem_range, Layout.split_batch]
  rfl

/-- No page of a plan asks for more than the cap and a leftover record. -/
theorem top_le_of_mem_splits (hl : l.Positive) (hr : 0 < r.toExtract) {s : Split} {p : Page}
    (hs : s ∈ (layout l r).splits) (hp : p ∈ s.pages) : p.top ≤ l.maxBatchSize + 1 := by
  have hbatch := (layout_sound hl hr).division.batch_pos s hs
  have htop : p.top ≤ s.batch := (Split.yields_pages hbatch).top_le p hp
  obtain ⟨i, hi, rfl⟩ := List.mem_iff_getElem.mp hs
  rw [batch_getElem_splits hi] at htop
  split at htop <;> omega

end

/-- The sizes of the splits of a request for `total` records: how many splits there are, and how
many records each of them asks for at a time. -/
structure Sizes (l : Limits) (r : Request) (total : Nat) (splits : List Split) : Prop where
  /-- What a default batch holds is one split. -/
  count : splits.length =
    if total ≤ l.defaultBatchSize then 1
    else min (min (orDefault r.splitCount l.defaultSplitCount) l.maxSplitCount) total
  /-- The first splits have a batch that is larger by one, as many as records are left by an even
  division. -/
  batch : ∀ i (_ : i < splits.length), splits[i].batch =
    min (min (total / splits.length) (orDefault r.batchSize l.defaultBatchSize)) l.maxBatchSize +
      if i < total % splits.length then 1 else 0
  top_le : ∀ s ∈ splits, ∀ p ∈ s.pages, p.top ≤ l.maxBatchSize + 1
  /-- A batch exceeds its cap only by a leftover record on top of a full batch. -/
  exceeds : ∀ i (_ : i < splits.length), l.maxBatchSize < splits[i].batch ↔
    i < total % splits.length ∧ l.maxBatchSize ≤ orDefault r.batchSize l.defaultBatchSize ∧
      l.maxBatchSize ≤ total / splits.length

/-- Where something is left to extract and there is room for the splits, there is a plan, and the
limits and the numbers of the request settle its sizes. Where there is no room planning panics. -/
theorem plan_sizes {l : Limits} {r : Request} (hl : l.Positive)
    (ha : r.available < greatestCount) (hs : r.skip < r.available) :
    (¬ r.Overflows l → ∃ splits, plan l r = .ok splits ∧ Sizes l r r.extent splits) ∧
    (r.Overflows l → plan l r = .error .capacityOverflow) := by
  have heq := Request.toExtract_eq_extent ha
  have hr : 0 < r.toExtract := heq ▸ Request.extent_pos hs
  have hlength : (layout l r).splits.length = splitCount l r := Layout.length_splits
  refine ⟨fun hfits ↦ ⟨_, plan_of_not_overflows hl ha hs hfits, ?_⟩, plan_of_overflows hl ha hs⟩
  rw [← heq]
  constructor
  · rw [hlength, splitCount_eq hl hr]
  · intro i hi
    rw [batch_getElem_splits hi, hlength]
  · intro s hs p hp
    exact top_le_of_mem_splits hl hr hs hp
  · intro i hi
    rw [batch_getElem_splits hi, hlength]
    split <;> omega

/-- Full batches with a leftover record: the first of four splits asks for more than the cap. There
is no room for 10 ^ 18 splits. -/
theorem plan_sizes_beyond_cap :
    plan ⟨3, 4, 10, 20⟩ ⟨101, 0, 0, 9, 50⟩ =
      .ok [⟨1, 26, 21⟩, ⟨27, 51, 20⟩, ⟨52, 76, 20⟩, ⟨77, 101, 20⟩] ∧
    Sizes ⟨3, 4, 10, 20⟩ ⟨101, 0, 0, 9, 50⟩ 101
      [⟨1, 26, 21⟩, ⟨27, 51, 20⟩, ⟨52, 76, 20⟩, ⟨77, 101, 20⟩] ∧
    plan ⟨8, 10 ^ 18, 2500, 5000⟩ ⟨10 ^ 18, 0, 0, 10 ^ 18, 100⟩ = .error .capacityOverflow := by
  have hplan : plan ⟨3, 4, 10, 20⟩ ⟨101, 0, 0, 9, 50⟩ =
      .ok [⟨1, 26, 21⟩, ⟨27, 51, 20⟩, ⟨52, 76, 20⟩, ⟨77, 101, 20⟩] := by decide
  obtain ⟨splits, hsplits, hsizes⟩ := (plan_sizes (l := ⟨3, 4, 10, 20⟩)
    (r := ⟨101, 0, 0, 9, 50⟩) ⟨by decide, by decide, by decide, by decide⟩ (by decide)
    (by decide)).1 (by decide)
  obtain rfl := Except.ok.inj (hplan.symm.trans hsplits)
  exact ⟨hplan, hsizes, (plan_sizes ⟨by decide, by decide, by decide, by decide⟩ (by decide)
    (by decide)).2 (by decide)⟩

end Harvest.Plan

import Harvest.Proofs.Plan.Division
import Harvest.Proofs.Plan.Pages

/-!
# Plans cover their range

The pages of all splits of a plan, one split after the other, ask for every record of the range of
the request once, and for no other record.
Design: `SPEC_FULL.md:79–84,173`.
-/

namespace Harvest.Plan

/-- Pages that cover `total` records behind the first `skip` ones without a gap or an overlap. -/
structure Coverage (skip total : Nat) (pages : List Page) : Prop where
  top_pos : ∀ p ∈ pages, 1 ≤ p.top
  head : pages.head?.map (·.skip) = some skip
  /-- Each page starts where the one before it ended. -/
  next : pages.IsChain fun p q ↦ q.skip = p.skip + p.top
  last : pages.getLast?.map (fun p ↦ p.skip + p.top) = some (skip + total)
  /-- Every record of the range is asked for by one page, and no other record by any. -/
  once : ∀ record, pages.countP (·.asksFor record) =
    if skip < record ∧ record ≤ skip + total then 1 else 0

/-- Pages that tile a range cover it. -/
theorem Tiles.coverage {skip total : Nat} {pages : List Page}
    (h : Tiles skip (skip + total) pages) (hpos : 0 < total) : Coverage skip total pages := by
  have hlt : skip < skip + total := by omega
  constructor
  · exact h.top_pos
  · exact h.head?_skip hlt
  · exact h.isChain
  · exact h.getLast?_stop hlt
  · exact h.countP_asksFor

namespace Layout

variable {l : Layout}

/-- The pages of one split tile its records. -/
theorem tiles_split (h : l.Sound) (i : Nat) :
    Tiles (l.skip + l.before i) (l.skip + l.before (i + 1)) (l.split i).pages := by
  have hbatch : 0 < (l.split i).batch := by
    have := h.batch_pos
    rw [split_batch]
    omega
  have htiles := Split.tiles_pages hbatch (by rw [split_first]; omega) (first_le_last h)
  rwa [split_first, split_last, Nat.add_sub_cancel] at htiles

/-- The pages of the first `n` splits tile the records of these splits. -/
theorem tiles_range (h : l.Sound) (n : Nat) :
    Tiles l.skip (l.skip + l.before n) (((List.range n).map l.split).flatMap Split.pages) := by
  induction n with
  | zero =>
    rw [before_zero]
    exact .nil _
  | succ n ih =>
    rw [List.range_succ, List.map_append, List.flatMap_append]
    simpa using ih.append (tiles_split h n)

/-- The pages of all splits tile the range of the plan. -/
theorem tiles_splits (h : l.Sound) :
    Tiles l.skip (l.skip + l.total) (l.splits.flatMap Split.pages) := by
  rw [← before_splitCount h, splits_eq_map]
  exact tiles_range h l.splitCount

end Layout

/-- The pages of a plan ask for every record of the range of the request. -/
theorem exists_asksFor {l : Limits} {r : Request} {splits : List Split} {record : Nat}
    (hplan : plan l r = .ok splits) (ha : r.available < greatestCount) (hlt : r.skip < record)
    (hle : record ≤ r.skip + r.extent) :
    ∃ s ∈ splits, ∃ p ∈ s.pages, p.asksFor record = true := by
  obtain ⟨hl, hr, -, rfl⟩ := plan_eq_ok_iff.mp hplan
  have hone := (Layout.tiles_splits (layout_sound hl hr)).countP_asksFor record
  rw [← Request.toExtract_eq_extent ha] at hle
  have hrange : (layout l r).skip < record ∧ record ≤ (layout l r).skip + (layout l r).total :=
    ⟨hlt, hle⟩
  rw [if_pos hrange] at hone
  obtain ⟨p, hp, hasks⟩ := List.countP_pos_iff.mp (hone ▸ Nat.one_pos)
  obtain ⟨s, hs, hmem⟩ := List.mem_flatMap.mp hp
  exact ⟨s, hs, p, hmem, hasks⟩

/-- No two pages of a plan ask for the same. -/
theorem nodup_pages {l : Limits} {r : Request} {splits : List Split}
    (hplan : plan l r = .ok splits) : (splits.flatMap Split.pages).Nodup := by
  obtain ⟨hl, hr, -, rfl⟩ := plan_eq_ok_iff.mp hplan
  exact (Layout.tiles_splits (layout_sound hl hr)).nodup

/-- Where something is left to extract and there is room for the splits, there is a plan, stepping
through each of its splits comes to an end with the pages of the split, and these cover the range
of the request. Where there is no room planning panics. -/
theorem plan_pages_cover {l : Limits} {r : Request} (hl : l.Positive)
    (ha : r.available < greatestCount) (hs : r.skip < r.available) :
    (¬ r.Overflows l → ∃ splits, plan l r = .ok splits ∧
      (∀ s ∈ splits, ∀ ps, s.cursor.Yields ps ↔ ps = s.pages) ∧
      Coverage r.skip r.extent (splits.flatMap Split.pages)) ∧
    (r.Overflows l → plan l r = .error .capacityOverflow) := by
  have hextent := Request.extent_pos hs
  have heq := Request.toExtract_eq_extent ha
  have hsound := layout_sound hl (heq ▸ hextent)
  have hdivision := hsound.division
  refine ⟨fun hfits ↦ ⟨_, plan_of_not_overflows hl ha hs hfits, ?_, ?_⟩,
    plan_of_overflows hl ha hs⟩
  · intro s hs ps
    exact Split.yields_iff (hdivision.batch_pos s hs)
  · rw [← heq] at hextent ⊢
    exact (Layout.tiles_splits hsound).coverage hextent

/-- Pages of unequal splits, the last page of a split shorter than its batch; and one split for
every record of more than there is room for. -/
theorem plan_pages_cover_uneven :
    (∃ splits, plan ⟨2, 4, 3, 3⟩ ⟨12, 9, 1, 0, 0⟩ = .ok splits ∧
      (∀ s ∈ splits, ∀ ps, s.cursor.Yields ps ↔ ps = s.pages) ∧
      Coverage 1 9 (splits.flatMap Split.pages)) ∧
    plan ⟨2, 4, 3, 3⟩ ⟨12, 9, 1, 0, 0⟩ = .ok [⟨2, 6, 4⟩, ⟨7, 10, 3⟩] ∧
    [(⟨2, 6, 4⟩ : Split), ⟨7, 10, 3⟩].flatMap Split.pages = [⟨1, 4⟩, ⟨5, 1⟩, ⟨6, 3⟩, ⟨9, 1⟩] ∧
    plan ⟨1, 10 ^ 18, 1, 1⟩ ⟨10 ^ 18, 0, 0, 10 ^ 18, 1⟩ = .error .capacityOverflow :=
  ⟨(plan_pages_cover (l := ⟨2, 4, 3, 3⟩) (r := ⟨12, 9, 1, 0, 0⟩)
    ⟨by decide, by decide, by decide, by decide⟩ (by decide) (by decide)).1 (by decide),
    by decide, by decide,
    (plan_pages_cover ⟨by decide, by decide, by decide, by decide⟩ (by decide) (by decide)).2
      (by decide)⟩

end Harvest.Plan

import Harvest.Proofs.Plan.Failures

/-!
# Plans move with their range

A plan depends on how many records there are to extract, and not on where they lie or on what the
request says about them: the plan for a range further on is the same plan moved, and a request that
asks for more than there is has the plan of the request for all. Where planning panics for one of
them, it does so for the others.
Design: `SPEC_FULL.md:192`.
-/

namespace Harvest.Plan

/-- The request with `k` more records before those that it is about. -/
def Request.shift (r : Request) (k : Nat) : Request :=
  { r with available := r.available + k, skip := r.skip + k }

/-- The split `k` records further on. -/
def Split.shift (s : Split) (k : Nat) : Split :=
  { s with first := s.first + k, last := s.last + k }

/-- The layout with `k` more records skipped. -/
def Layout.shift (l : Layout) (k : Nat) : Layout :=
  { l with skip := l.skip + k }

namespace Layout

variable {l : Layout} {k i : Nat}

/-- The records before a split are counted from the first one extracted. -/
theorem before_shift : (l.shift k).before i = l.before i := rfl

/-- Leftover records go to the same splits. -/
theorem extra_shift : (l.shift k).extra i = l.extra i := rfl

/-- Each split of a layout lies behind what is skipped. -/
theorem split_shift : (l.shift k).split i = (l.split i).shift k := by
  unfold split splitFrom Split.shift
  rw [before_shift, extra_shift]
  simp only [shift, Split.mk.injEq, and_true]
  omega

/-- With more records skipped, the splits of a plan lie further on. -/
theorem splits_shift : (l.shift k).splits = l.splits.map (·.shift k) := by
  rw [splits_eq_map, splits_eq_map, List.map_map]
  exact List.map_congr_left fun _ _ ↦ split_shift

end Layout

section

variable {l : Limits} {r r' : Request} {splits : List Split} {k : Nat}

/-- Of the range of a request, only its size matters to the other numbers of the layout. -/
theorem layout_congr (hextract : r'.toExtract = r.toExtract)
    (hsplits : r'.splitCount = r.splitCount) (hbatch : r'.batchSize = r.batchSize) :
    layout l r' = { layout l r with skip := r'.skip } := by
  have hsize : batchSize l r' = batchSize l r := by
    rw [batchSize, batchSize, hextract, hbatch]
  have hcount : splitCount l r' = splitCount l r := by
    rw [splitCount, splitCount, hextract, hsplits, hsize]
  simp only [layout, hextract, hsize, hcount]

/-- A request is about as many records wherever they lie. -/
theorem Request.toExtract_shift (ha : r.available + k < greatestCount) :
    (r.shift k).toExtract = r.toExtract := by
  have har : r.available < greatestCount := by omega
  rw [toExtract_eq_extent har, toExtract_eq_extent ha]
  simp only [extent, shift, Nat.add_sub_add_right]

/-- A range further on is laid out as the range is, moved. -/
theorem layout_shift (ha : r.available + k < greatestCount) :
    layout l (r.shift k) = (layout l r).shift k :=
  layout_congr (Request.toExtract_shift ha) rfl rfl

/-- Where there is room for the splits of a range, there is for those of a range further on. -/
theorem Request.overflows_shift : (r.shift k).Overflows l ↔ r.Overflows l := by
  have hextent : (r.shift k).extent = r.extent := by
    simp only [extent, shift, Nat.add_sub_add_right]
  rw [Overflows, Overflows, splitTotal, splitTotal, hextent]
  rfl

/-- Splits take no room where nothing is left to extract. -/
theorem Request.lt_of_overflows (h : r.Overflows l) : r.skip < r.available := by
  refine Nat.lt_of_not_le fun hle ↦ ?_
  have hnone : r.extent = 0 := by
    unfold extent
    split <;> omega
  have hone : r.splitTotal l = 1 := if_pos (hnone ▸ Nat.zero_le _)
  rw [Overflows, hone] at h
  omega

/-- The plan for a range further on is the plan moved. -/
theorem plan_shift_of_ok (ha : r.available + k < greatestCount) (h : plan l r = .ok splits) :
    plan l (r.shift k) = .ok (splits.map (·.shift k)) := by
  obtain ⟨hl, hr, hroom, rfl⟩ := plan_eq_ok_iff.mp h
  rw [← Layout.splits_shift, ← layout_shift ha]
  refine plan_eq_ok_iff.mpr ⟨hl, by rwa [Request.toExtract_shift ha], ?_, rfl⟩
  rwa [layout_shift ha]

/-- A request for all that is left, or for more, extracts what is left. -/
theorem Request.toExtract_of_le (ha : r.available < greatestCount)
    (h : r.fetch = 0 ∨ r.available - r.skip ≤ r.fetch) :
    r.toExtract = r.available - r.skip := by
  rw [toExtract_eq_extent ha]
  unfold extent
  split <;> omega

/-- A request for all that is left, or for more, is planned as the request for what is left. -/
theorem plan_of_le_fetch (hl : l.Positive) (ha : r.available < greatestCount)
    (hs : r.skip < r.available) (h : r.fetch = 0 ∨ r.available - r.skip ≤ r.fetch) :
    plan l r = plan l { r with fetch := 0 } := by
  have hleft : r.toExtract = r.available - r.skip := Request.toExtract_of_le ha h
  have hall : { r with fetch := 0 : Request }.toExtract = r.available - r.skip :=
    Request.toExtract_of_le (r := { r with fetch := 0 }) ha (.inl rfl)
  have hlayout : layout l r = layout l { r with fetch := 0 } :=
    layout_congr (hleft.trans hall.symm) rfl rfl
  rw [plan_of_positive hl (by omega), plan_of_positive hl (by omega), hlayout]

end

/-- Planning a range further on gives the same plan moved, or finds nothing to extract in both
places, or has no room for the splits in both; and all requests for what is left, or for more, have
one plan, or there is room for the splits of none. -/
theorem plan_shift {l : Limits} {r : Request} {k : Nat} (hl : l.Positive)
    (ha : r.available + k < greatestCount) :
    (¬ r.Overflows l →
      (∃ splits, plan l r = .ok splits ∧ plan l (r.shift k) = .ok (splits.map (·.shift k))) ∨
      (plan l r = .error (.refused (.invalidRange r.available r.skip r.fetch)) ∧
        plan l (r.shift k) =
          .error (.refused (.invalidRange (r.available + k) (r.skip + k) r.fetch)))) ∧
    (r.Overflows l → plan l r = .error .capacityOverflow ∧
      plan l (r.shift k) = .error .capacityOverflow) ∧
    (r.skip < r.available →
      (¬ { r with fetch := 0 }.Overflows l → ∃ splits, ∀ fetch,
        fetch = 0 ∨ r.available - r.skip ≤ fetch → plan l { r with fetch } = .ok splits) ∧
      ({ r with fetch := 0 }.Overflows l → ∀ fetch,
        fetch = 0 ∨ r.available - r.skip ≤ fetch →
          plan l { r with fetch } = .error .capacityOverflow)) := by
  have har : r.available < greatestCount := by omega
  refine ⟨fun hfits ↦ ?_, fun hover ↦ ?_, fun hs ↦ ?_⟩
  · by_cases hs : r.skip < r.available
    · have hplan := plan_of_not_overflows hl har hs hfits
      exact .inl ⟨_, hplan, plan_shift_of_ok ha hplan⟩
    · have hr : r.toExtract = 0 :=
        (Request.toExtract_eq_zero_iff har).mpr (Nat.le_of_not_lt hs)
      have hshift : (r.shift k).toExtract = 0 := by rw [Request.toExtract_shift ha, hr]
      exact .inr ⟨plan_eq_invalidRange_iff.mpr ⟨hl, hr, rfl, rfl, rfl⟩,
        plan_eq_invalidRange_iff.mpr ⟨hl, hshift, rfl, rfl, rfl⟩⟩
  · have hshift : (r.shift k).Overflows l := Request.overflows_shift.mpr hover
    exact ⟨plan_of_overflows hl har (Request.lt_of_overflows hover) hover,
      plan_of_overflows hl ha (Request.lt_of_overflows hshift) hshift⟩
  · have hall (fetch : Nat) (h : fetch = 0 ∨ r.available - r.skip ≤ fetch) :
        plan l { r with fetch } = plan l { r with fetch := 0 } :=
      plan_of_le_fetch (r := { r with fetch }) hl har hs h
    exact ⟨fun hfits ↦ ⟨_, fun fetch h ↦ (hall fetch h).trans
        (plan_of_not_overflows (r := { r with fetch := 0 }) hl har hs hfits)⟩,
      fun hover fetch h ↦ (hall fetch h).trans
        (plan_of_overflows (r := { r with fetch := 0 }) hl har hs hover)⟩

/-- Unequal splits moved by a hundred records, and two requests for more than is left; and splits
that there is no room for, wherever they lie. -/
theorem plan_shift_uneven :
    plan ⟨2, 4, 3, 3⟩ ⟨12, 9, 1, 0, 0⟩ = .ok [⟨2, 6, 4⟩, ⟨7, 10, 3⟩] ∧
    plan ⟨2, 4, 3, 3⟩ ⟨112, 9, 101, 0, 0⟩ = .ok [⟨102, 106, 4⟩, ⟨107, 110, 3⟩] ∧
    (∃ splits, plan ⟨2, 4, 3, 3⟩ ⟨12, 11, 1, 0, 0⟩ = .ok splits ∧
      plan ⟨2, 4, 3, 3⟩ ⟨12, greatestCount, 1, 0, 0⟩ = .ok splits) ∧
    plan ⟨8, 10 ^ 18, 2500, 5000⟩ ⟨10 ^ 18, 0, 0, 10 ^ 18, 0⟩ = .error .capacityOverflow ∧
    plan ⟨8, 10 ^ 18, 2500, 5000⟩ ⟨10 ^ 18 + 1, 0, 1, 10 ^ 18, 0⟩ =
      .error .capacityOverflow := by
  have hplan : plan ⟨2, 4, 3, 3⟩ ⟨12, 9, 1, 0, 0⟩ = .ok [⟨2, 6, 4⟩, ⟨7, 10, 3⟩] := by decide
  have hl : Limits.Positive ⟨2, 4, 3, 3⟩ := ⟨by decide, by decide, by decide, by decide⟩
  obtain ⟨hmoved, -, hleft⟩ := plan_shift (r := ⟨12, 9, 1, 0, 0⟩) (k := 100) hl (by decide)
  have hhuge : Limits.Positive ⟨8, 10 ^ 18, 2500, 5000⟩ :=
    ⟨by decide, by decide, by decide, by decide⟩
  obtain ⟨-, hpanics, -⟩ :=
    plan_shift (r := ⟨10 ^ 18, 0, 0, 10 ^ 18, 0⟩) (k := 1) hhuge (by decide)
  refine ⟨hplan, ?_, ?_, hpanics (by decide)⟩
  · obtain ⟨splits, hsplits, hshift⟩ | ⟨hnone, _⟩ := hmoved (by decide)
    · obtain rfl := Except.ok.inj (hplan.symm.trans hsplits)
      exact hshift
    · rw [hplan] at hnone
      cases hnone
  · obtain ⟨splits, hall⟩ := (hleft (by decide)).1 (by decide)
    exact ⟨splits, hall 11 (by decide), hall greatestCount (by decide)⟩

end Harvest.Plan

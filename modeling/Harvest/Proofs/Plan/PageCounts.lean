import Harvest.Proofs.Plan.Bounded
import Mathlib.Algebra.Order.Floor.Div

/-!
# How many pages a split takes

A walk through a range takes a full batch with every page but the last one, so there are as many
pages as batches are needed for the records. A leftover record comes with a batch that is larger by
one, so the splits that carry one take no more pages than the others.
Design: `SPEC_FULL.md:260–261`.
-/

namespace Harvest.Plan

/-! ## Batches -/

/-- The number of batches grows by one with a full batch. -/
theorem ceilDiv_add_self {batch : Nat} (hb : 0 < batch) (n : Nat) :
    (n + batch) ⌈/⌉ batch = n ⌈/⌉ batch + 1 := by
  rw [Nat.ceilDiv_eq_add_pred_div, Nat.ceilDiv_eq_add_pred_div, ← Nat.add_div_right _ hb]
  congr 1
  omega

/-- One batch is enough for what is no more than a batch. -/
theorem ceilDiv_eq_one {n batch : Nat} (hn : 0 < n) (hle : n ≤ batch) : n ⌈/⌉ batch = 1 := by
  rw [Nat.ceilDiv_eq_add_pred_div]
  exact Nat.div_eq_of_lt_le (by omega) (by omega)

/-- One record more takes no further batch where the batch is larger by one as well. -/
theorem ceilDiv_succ_le {n batch : Nat} (hb : 0 < batch) (hle : batch ≤ n) :
    (n + 1) ⌈/⌉ (batch + 1) ≤ n ⌈/⌉ batch := by
  have henough : n ≤ batch * (n ⌈/⌉ batch) := (ceilDiv_le_iff_le_mul hb).mp (Nat.le_refl _)
  have hsome : 0 < n ⌈/⌉ batch := by
    rw [Nat.pos_iff_ne_zero]
    intro hzero
    rw [hzero] at henough
    omega
  rw [ceilDiv_le_iff_le_mul (Nat.succ_pos batch), Nat.succ_mul]
  exact Nat.add_le_add henough hsome

/-! ## Walks -/

namespace Cursor

variable {c : Cursor} {ps : List Page}

/-- A walk has as many pages as batches are needed for what is left of the range. -/
theorem Yields.length_eq (h : c.Yields ps) (hb : 0 < c.batch) :
    ps.length = (c.last + 1 - c.next) ⌈/⌉ c.batch := by
  induction h with
  | @done c hnone =>
    have hend : c.last + 1 - c.next = 0 := by
      have := step?_eq_none_iff.mp hnone
      omega
    rw [hend, zero_ceilDiv, List.length_nil]
  | @step c rest p ps hstep _ ih =>
    obtain ⟨hnext, rfl, rfl⟩ := step?_eq_some_iff.mp hstep
    rw [List.length_cons, ih hb]
    dsimp only
    by_cases hfull : c.batch ≤ c.last + 1 - c.next
    · have htop : c.top = c.batch := by
        unfold top
        omega
      have hleft : c.last + 1 - c.next = c.last + 1 - (c.next + c.batch) + c.batch := by omega
      rw [htop, hleft, ceilDiv_add_self hb]
    · have hnone : c.last + 1 - (c.next + c.top) = 0 := by
        unfold top
        omega
      rw [hnone, zero_ceilDiv, ceilDiv_eq_one (by omega) (by omega)]

/-- Every page of a walk but the last one takes a full batch. -/
theorem Yields.top_eq (h : c.Yields ps) : ∀ p ∈ ps.dropLast, p.top = c.batch := by
  induction h with
  | done => simp
  | @step c rest p ps hstep hrest ih =>
    obtain ⟨_, rfl, rfl⟩ := step?_eq_some_iff.mp hstep
    cases hrest with
    | done => simp
    | step hsome hrest =>
      -- Where another page follows, the batch leaves something of the range.
      have hmore : c.next + c.top ≤ c.last := (step?_eq_some_iff.mp hsome).1
      have htop : c.top = c.batch := by
        unfold top at hmore ⊢
        omega
      rw [List.dropLast_cons_cons]
      exact List.forall_mem_cons.mpr ⟨htop, ih⟩

end Cursor

namespace Split

variable {s : Split}

/-- The pages of a split are as many as batches are needed for its records. -/
theorem length_pages (hb : 0 < s.batch) (hle : s.first ≤ s.last) :
    s.pages.length = s.recordCount ⌈/⌉ s.batch := by
  have hcount : s.last + 1 - s.first = s.recordCount := by
    unfold recordCount
    omega
  rw [(yields_pages hb).length_eq hb, ← hcount]
  rfl

/-- What is shown of a split as the number of its pages is their number. -/
theorem pageCount_eq_length (hb : 0 < s.batch) (hle : s.first ≤ s.last) :
    s.pageCount = s.pages.length :=
  (length_pages hb hle).symm

end Split

/-! ## Leftover records -/

namespace Layout

variable {l : Layout} {i j : Nat}

/-- A split with a leftover record takes no more pages than one without. -/
theorem length_pages_le (h : l.Sound) (hi : i < l.leftover) (hj : l.leftover ≤ j) :
    (l.split i).pages.length ≤ (l.split j).pages.length := by
  have hbatch (k : Nat) : 0 < (l.split k).batch := by
    rw [split_batch]
    exact Nat.add_pos_left h.batch_pos _
  have hlarger : l.extra i = 1 := if_pos hi
  have heven : l.extra j = 0 := if_neg (Nat.not_lt.mpr hj)
  rw [Split.length_pages (hbatch i) (first_le_last h), Split.length_pages (hbatch j)
    (first_le_last h), recordCount_split h, recordCount_split h, split_batch, split_batch, hlarger,
    heven]
  exact ceilDiv_succ_le h.batch_pos h.batch_le

end Layout

/-! ## Plans that stay within 64 bits -/

/-- No split ends at the greatest count where no operation fails while splits are listed. -/
theorem Bounded.last_lt_of_emit {l : Layout} {n i first : Nat} {splits : List Split}
    (h : emit l n i first = some splits) : ∀ s ∈ splits, s.last < greatestCount := by
  induction n generalizing i first splits with
  | zero =>
    obtain rfl : [] = splits := Option.some.inj h
    exact List.forall_mem_nil _
  | succ n ih =>
    simp only [emit, Option.bind_eq_bind, Option.bind_eq_some_iff, Option.pure_def,
      Option.some.injEq] at h
    obtain ⟨before, -, share, -, last, -, batch, -, next, hnext, rest, hrest, rfl⟩ := h
    obtain ⟨hle, -⟩ := Option.ite_none_right_eq_some.mp hnext
    exact List.forall_mem_cons.mpr ⟨hle, ih hrest⟩

private theorem Bounded.last_lt_of_planFor {l : Limits} {r : Request} {total : Int}
    {splits : List Split} (h : planFor l r total = some (.ok splits)) :
    ∀ s ∈ splits, s.last < greatestCount := by
  unfold planFor at h
  split at h
  · simp at h
  · split at h
    · simp at h
    · simp only [Bounded.splits, Option.bind_eq_bind, Option.bind_eq_some_iff] at h
      obtain ⟨first, -, last, -, numbers, -, hlisted⟩ := h
      split at hlisted
      · simp at hlisted
      · obtain ⟨found, hemit, hsame⟩ := Option.map_eq_some_iff.mp hlisted
        obtain rfl := Except.ok.inj hsame
        exact last_lt_of_emit hemit

/-! ## Whole plans -/

/-- The pages of the splits of a plan, the first `leftover` of which carry a leftover record. -/
structure PageCounts (leftover : Nat) (splits : List Split) : Prop where
  /-- Stepping through a split comes to an end with its pages. -/
  yields : ∀ s ∈ splits, ∀ ps, s.cursor.Yields ps ↔ ps = s.pages
  /-- The records divided by the batch, rounded up. -/
  length : ∀ s ∈ splits, s.pages.length = s.recordCount ⌈/⌉ s.batch
  /-- What is shown as their number. -/
  shown : ∀ s ∈ splits, s.pageCount = s.pages.length
  full : ∀ s ∈ splits, ∀ p ∈ s.pages.dropLast, p.top = s.batch
  /-- No split with a leftover record takes more pages than one without. -/
  length_le : ∀ i j (_ : i < splits.length) (_ : j < splits.length), i < leftover → leftover ≤ j →
    splits[i].pages.length ≤ splits[j].pages.length

/-- The splits of every plan take as many pages as batches are needed for their records, and a
leftover record takes no further page. Where the plan is made without leaving 64 bits, so is every
step through its splits. -/
theorem plan_pageCounts {l : Limits} {r : Request} {splits : List Split}
    (h : plan l r = .ok splits) :
    PageCounts (r.toExtract % splits.length) splits ∧
    (Bounded.planFor l r r.toExtract = some (.ok splits) →
      ∀ s ∈ splits, ∀ c, s.cursor.Reaches c → Bounded.step c = some c.step?) := by
  obtain ⟨hl, hr, -, rfl⟩ := plan_eq_ok_iff.mp h
  have hsound := layout_sound hl hr
  have hdivision := hsound.division
  constructor
  · constructor
    · intro s hs ps
      exact Split.yields_iff (hdivision.batch_pos s hs)
    · intro s hs
      exact Split.length_pages (hdivision.batch_pos s hs) (hdivision.first_le_last s hs)
    · intro s hs
      exact Split.pageCount_eq_length (hdivision.batch_pos s hs) (hdivision.first_le_last s hs)
    · intro s hs
      exact (Split.yields_pages (hdivision.batch_pos s hs)).top_eq
    · intro i j hi hj
      have hmod : r.toExtract % (layout l r).splits.length = (layout l r).leftover := by
        rw [Layout.length_splits, ← Layout.total_mod hsound]
        rfl
      rw [hmod]
      simp only [Layout.splits_eq_map, List.getElem_map, List.getElem_range]
      exact Layout.length_pages_le hsound
  · intro hfits s hs c hreach
    have hfirst := hdivision.first_le_last s hs
    have hlast := Bounded.last_lt_of_planFor hfits s hs
    obtain ⟨i, -, rfl⟩ := Layout.mem_splits.mp hs
    have hplace : ((layout l r).split i).cursor.Fits :=
      ⟨Nat.succ_pos _, Nat.le_succ_of_le hfirst, hlast⟩
    exact (hplace.reaches hreach).bounded_step

/-- Two splits of five records with a batch of four, and one of four records with a batch of three:
each takes two pages. -/
theorem plan_pageCounts_leftover :
    plan ⟨3, 4, 3, 3⟩ ⟨14, 0, 0, 0, 0⟩ = .ok [⟨1, 5, 4⟩, ⟨6, 10, 4⟩, ⟨11, 14, 3⟩] ∧
    [(⟨1, 5, 4⟩ : Split), ⟨6, 10, 4⟩, ⟨11, 14, 3⟩].map Split.pages =
      [[⟨0, 4⟩, ⟨4, 1⟩], [⟨5, 4⟩, ⟨9, 1⟩], [⟨10, 3⟩, ⟨13, 1⟩]] ∧
    PageCounts 2 [⟨1, 5, 4⟩, ⟨6, 10, 4⟩, ⟨11, 14, 3⟩] ∧
    Bounded.step ⟨15, 14, 3⟩ = some none := by
  have hplan : plan ⟨3, 4, 3, 3⟩ ⟨14, 0, 0, 0, 0⟩ =
      .ok [⟨1, 5, 4⟩, ⟨6, 10, 4⟩, ⟨11, 14, 3⟩] := by decide
  obtain ⟨hcounts, hsteps⟩ := plan_pageCounts hplan
  refine ⟨hplan, by decide, hcounts, ?_⟩
  exact hsteps (by decide) ⟨11, 14, 3⟩ (by decide) _
    (.step (p := ⟨13, 1⟩) (.step (p := ⟨10, 3⟩) .refl rfl) rfl)

end Harvest.Plan

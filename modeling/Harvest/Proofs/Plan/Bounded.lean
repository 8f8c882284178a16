import Harvest.Proofs.Plan.Division
import Harvest.Proofs.Plan.Pages

/-!
# Plans stay within 64 bits

Planning is stated in numbers of any size. Here it is gone through once more by operations that
fail where a result does not fit into 64 bits, would be negative, or has no value: they never fail,
and give the same plan and the same pages. The range is cut off at the greatest count in two
places, which makes no difference either: exact arithmetic comes to the same number of records.
-/

namespace Harvest.Plan

/-! ## Operations that may fail -/

namespace Bounded

/-- A sum, where it is no more than the greatest count. -/
def add (a b : Nat) : Option Nat :=
  if a + b ≤ greatestCount then some (a + b) else none

/-- A difference, where it is not negative. -/
def sub (a b : Nat) : Option Nat :=
  if b ≤ a then some (a - b) else none

/-- A quotient, where the divisor is not zero. -/
def div (a b : Nat) : Option Nat :=
  if b = 0 then none else some (a / b)

/-- A remainder, where the divisor is not zero. -/
def mod (a b : Nat) : Option Nat :=
  if b = 0 then none else some (a % b)

/-- The records of each of the splits, leftover ones apart. -/
def share (total splitCount : Nat) : Option Nat :=
  if splitCount = 1 then some total else div total splitCount

/-- The numbers of a plan for `total` records. -/
def layout (l : Limits) (r : Request) (total : Nat) : Option Layout := do
  let batch := min (min (orDefault r.batchSize l.defaultBatchSize) total) l.maxBatchSize
  let asked :=
    if batch ≤ l.defaultBatchSize ∧ total ≤ l.defaultBatchSize then 1
    else orDefault r.splitCount l.defaultSplitCount
  let splitCount := min (min asked l.maxSplitCount) total
  let perSplit ← share total splitCount
  let leftover ← mod total splitCount
  return { skip := r.skip, total, splitCount, perSplit, leftover, batch := min perSplit batch }

/-- The next splits of a plan. The first record of the split behind the last one is computed as
well, though no split starts there. -/
def emit (l : Layout) : (n i first : Nat) → Option (List Split)
  | 0, _, _ => some []
  | n + 1, i, first => do
    let before ← sub first 1
    let share ← add before l.perSplit
    let last ← add share (l.extra i)
    let batch ← add l.batch (l.extra i)
    let next ← add last 1
    let rest ← emit l n (i + 1) next
    return ⟨first, last, batch⟩ :: rest

/-- The splits of a plan for `total` records, where there is room for them. -/
def splits (l : Limits) (r : Request) (total : Nat) : Option (Except Halt (List Split)) := do
  let first ← add r.skip 1
  -- The last record is reported only.
  let _last ← add r.skip total
  let numbers ← layout l r total
  if numbers.overflows then some (.error .capacityOverflow)
  else (emit numbers numbers.splitCount 0 first).map .ok

/-- Planning, once it is settled how many records there are to extract: none where the number is
not positive. -/
def planFor (l : Limits) (r : Request) (total : Int) : Option (Except Halt (List Split)) :=
  match l.firstZero? with
  | some limit => some (.error (.refused (.invalidLimits limit)))
  | none =>
    if total ≤ 0 then some (.error (.refused (.invalidRange r.available r.skip r.fetch)))
    else splits l r total.toNat

/-- The number of records of a split. -/
def recordCount (s : Split) : Option Nat := do
  let behind ← sub s.last s.first
  add behind 1

/-- The next page from a place and the place behind it. -/
def step (c : Cursor) : Option (Option (Page × Cursor)) :=
  if c.next > c.last then some none
  else do
    let behind ← sub c.last c.next
    let left ← add behind 1
    let top := min c.batch left
    let skip ← sub c.next 1
    let next ← add c.next top
    return some (⟨skip, top⟩, { c with next })

section

variable {a b : Nat}

private theorem add_eq (h : a + b ≤ greatestCount) : add a b = some (a + b) := if_pos h

private theorem sub_eq (h : b ≤ a) : sub a b = some (a - b) := if_pos h

private theorem div_eq (h : 0 < b) : div a b = some (a / b) := if_neg (Nat.ne_of_gt h)

private theorem mod_eq (h : 0 < b) : mod a b = some (a % b) := if_neg (Nat.ne_of_gt h)

/-- One split is no exception from the division. -/
theorem share_eq (h : 0 < b) : share a b = some (a / b) := by
  unfold share
  split
  · next hone => rw [hone, Nat.div_one]
  · exact div_eq h

end

end Bounded

/-! ## Steps through a range -/

/-- The places that steps from a place lead to. -/
inductive Cursor.Reaches (c : Cursor) : Cursor → Prop
  | refl : c.Reaches c
  | step {d rest : Cursor} {p : Page} : c.Reaches d → d.step? = some (p, rest) → c.Reaches rest

/-- A place in a range that ends below the greatest count, or behind the last record. -/
structure Cursor.Fits (c : Cursor) : Prop where
  next_pos : 0 < c.next
  next_le : c.next ≤ c.last + 1
  last_lt : c.last < greatestCount

namespace Cursor

variable {c d rest : Cursor} {p : Page}

/-- A step stays in the range. -/
theorem Fits.step (h : c.Fits) (hstep : c.step? = some (p, rest)) : rest.Fits := by
  obtain ⟨hnext, rfl, rfl⟩ := step?_eq_some_iff.mp hstep
  have hpos := h.next_pos
  constructor
  · exact Nat.add_pos_left hpos _
  · exact next_add_top_le hnext
  · exact h.last_lt

/-- All steps stay in the range. -/
theorem Fits.reaches (h : c.Fits) (hreach : c.Reaches d) : d.Fits := by
  induction hreach with
  | refl => exact h
  | step _ hstep ih => exact ih.step hstep

/-- No operation of a step fails. -/
theorem Fits.bounded_step (h : c.Fits) : Bounded.step c = some c.step? := by
  have hpos := h.next_pos
  have hlast := h.last_lt
  unfold Bounded.step step?
  split
  · rfl
  · next hnext =>
    have htop := next_add_top_le (Nat.not_lt.mp hnext)
    unfold top at htop ⊢
    simp (disch := omega) only [Bounded.sub_eq, Bounded.add_eq, Option.bind_eq_bind,
      Option.bind_some, Option.pure_def]

end Cursor

/-! ## The splits of a layout -/

namespace Layout

variable {l : Layout} {i n : Nat}

/-- No operation fails while splits are listed. -/
theorem bounded_emit (h : l.Sound) (hfit : l.skip + l.total < greatestCount)
    (hn : i + n ≤ l.splitCount) :
    Bounded.emit l n i (l.skip + l.before i + 1) =
      some (l.emit n i (l.skip + l.before i + 1)) := by
  induction n generalizing i with
  | zero => rfl
  | succ n ih =>
    have hsucc : l.before (i + 1) = l.before i + (l.perSplit + l.extra i) := before_succ
    have hle : l.before (i + 1) ≤ l.total := before_le h (by omega)
    have hbatch := h.batch_le
    have hrest := ih (i := i + 1) (by omega)
    have hsplit : l.splitFrom i (l.skip + l.before i + 1) =
        ⟨l.skip + l.before i + 1, l.skip + l.before (i + 1), l.batch + l.extra i⟩ := by
      simp only [splitFrom, Nat.add_sub_cancel, Split.mk.injEq, true_and, and_true]
      omega
    have hlast : l.skip + l.before i + l.perSplit + l.extra i = l.skip + l.before (i + 1) := by
      omega
    -- No sum is above the next start, which is at most one behind the last record of the plan.
    unfold Bounded.emit emit
    simp (disch := omega) only [Bounded.sub_eq, Bounded.add_eq, Nat.add_sub_cancel, hlast, hrest,
      hsplit, Option.bind_eq_bind, Option.bind_some, Option.pure_def]

/-- The pages of a split of a layout are within its range. -/
theorem fits_split (h : l.Sound) (hfit : l.skip + l.total < greatestCount)
    (hi : i < l.splitCount) : (l.split i).cursor.Fits := by
  have hle : l.before (i + 1) ≤ l.total := before_le h hi
  have hfirst := first_le_last h (i := i)
  constructor
  · exact Nat.succ_pos _
  · exact Nat.le_succ_of_le hfirst
  · change (l.split i).last < greatestCount
    rw [split_last]
    omega

end Layout

/-- No operation fails while the records of a split are counted. -/
theorem Split.bounded_recordCount {s : Split} (h : s.cursor.Fits) (hle : s.first ≤ s.last) :
    Bounded.recordCount s = some s.recordCount := by
  have hfirst : 0 < s.first := h.next_pos
  have hlast : s.last < greatestCount := h.last_lt
  unfold Bounded.recordCount recordCount
  simp (disch := omega) only [Bounded.sub_eq, Bounded.add_eq, Option.bind_eq_bind,
    Option.bind_some]

/-! ## The whole plan -/

/-- The number of records to extract in exact arithmetic: a difference may be negative, and no sum
is cut off. -/
def Request.exactExtract (r : Request) : Int :=
  let remaining : Int := r.available - r.skip
  let wanted : Int := if r.fetch = 0 then remaining else r.fetch
  if r.skip + wanted > r.available then remaining else wanted

section

variable {l : Limits} {r : Request}

/-- What the exact number has above zero is the extent of the request. -/
theorem Request.toNat_exactExtract (r : Request) : r.exactExtract.toNat = r.extent := by
  unfold exactExtract extent
  dsimp only
  split <;> split <;> omega

/-- No operation fails while the numbers of a plan are computed. -/
theorem bounded_layout (hl : l.Positive) (hr : 0 < r.toExtract) :
    Bounded.layout l r r.toExtract = some (layout l r) := by
  have hcount := splitCount_pos hl hr
  have hbatch : min (min (orDefault r.batchSize l.defaultBatchSize) r.toExtract) l.maxBatchSize =
      batchSize l r := rfl
  have hsplits : min (min (if batchSize l r ≤ l.defaultBatchSize ∧
      r.toExtract ≤ l.defaultBatchSize then 1 else orDefault r.splitCount l.defaultSplitCount)
        l.maxSplitCount) r.toExtract = splitCount l r := rfl
  unfold Bounded.layout
  simp only [hbatch, hsplits, Bounded.share_eq hcount, Bounded.mod_eq hcount,
    Option.bind_eq_bind, Option.bind_some]
  rfl

/-- No operation fails while the splits of a plan are computed. -/
theorem bounded_splits (hl : l.Positive) (ha : r.available < greatestCount)
    (hr : 0 < r.toExtract) : Bounded.splits l r r.toExtract = some (plan l r) := by
  have hle := Request.skip_add_toExtract_le ha hr
  have hemit := Layout.bounded_emit (layout_sound hl hr) (n := splitCount l r) (i := 0)
    (Nat.lt_of_le_of_lt hle ha) (Nat.le_of_eq (Nat.zero_add _))
  rw [Layout.before_zero, Nat.add_zero] at hemit
  have hlisted : Bounded.emit (layout l r) (layout l r).splitCount 0 (r.skip + 1) =
      some (layout l r).splits := hemit
  unfold Bounded.splits
  simp (disch := omega) only [Bounded.add_eq, bounded_layout hl hr, Option.bind_eq_bind,
    Option.bind_some, hlisted, Option.map_some, plan_of_positive hl hr]
  split <;> rfl

/-- Planning for the number of records that the request is about gives its plan. -/
theorem bounded_planFor {total : Int} (ha : r.available < greatestCount)
    (htotal : total.toNat = r.toExtract) : Bounded.planFor l r total = some (plan l r) := by
  unfold Bounded.planFor
  cases hz : l.firstZero? with
  | some limit => simp only [plan_eq, hz]
  | none =>
    have hl := Limits.firstZero?_eq_none_iff.mp hz
    by_cases hr : r.toExtract = 0
    · have hnone : total ≤ 0 := by omega
      simp only [plan_eq, hz, hnone, hr, if_true]
    · have hsome : ¬ total ≤ 0 := by omega
      simp only [hsome, if_false, htotal, bounded_splits hl ha (Nat.pos_of_ne_zero hr)]

end

/-- Planning never leaves 64 bits: no operation fails, neither on the way to a plan or an error nor
where the records of a split are counted or its pages are stepped through, and exact arithmetic
gives the same plan or error. -/
theorem plan_stays_bounded {l : Limits} {r : Request} (ha : r.available < greatestCount) :
    Bounded.planFor l r r.toExtract = some (plan l r) ∧
    Bounded.planFor l r r.exactExtract = some (plan l r) ∧
    ∀ splits, plan l r = .ok splits → ∀ s ∈ splits,
      Bounded.recordCount s = some s.recordCount ∧
      ∀ c, s.cursor.Reaches c → Bounded.step c = some c.step? := by
  have hexact : r.exactExtract.toNat = r.toExtract :=
    (Request.toNat_exactExtract r).trans (Request.toExtract_eq_extent ha).symm
  refine ⟨bounded_planFor ha (Int.toNat_natCast _), bounded_planFor ha hexact, ?_⟩
  intro splits hplan s hs
  obtain ⟨hl, hr, -, rfl⟩ := plan_eq_ok_iff.mp hplan
  obtain ⟨i, hi, rfl⟩ := Layout.mem_splits.mp hs
  have hsound := layout_sound hl hr
  have hle := Request.skip_add_toExtract_le ha hr
  have hfits := Layout.fits_split hsound (Nat.lt_of_le_of_lt hle ha) hi
  constructor
  · exact Split.bounded_recordCount hfits (Layout.first_le_last hsound)
  · intro c hreach
    exact (hfits.reaches hreach).bounded_step

/-- The last three records of as many as there may be, and more of them asked for than that: the
place behind the last page is the greatest count. -/
theorem plan_stays_bounded_top :
    plan ⟨2, 4, 1, 2⟩ ⟨greatestCount - 1, greatestCount, greatestCount - 4, 0, 0⟩ =
      .ok [⟨greatestCount - 3, greatestCount - 2, 2⟩,
        ⟨greatestCount - 1, greatestCount - 1, 1⟩] ∧
    Bounded.planFor ⟨2, 4, 1, 2⟩ ⟨greatestCount - 1, greatestCount, greatestCount - 4, 0, 0⟩ 3 =
      some (.ok [⟨greatestCount - 3, greatestCount - 2, 2⟩,
        ⟨greatestCount - 1, greatestCount - 1, 1⟩]) ∧
    Bounded.step ⟨greatestCount - 1, greatestCount - 1, 1⟩ =
      some (some (⟨greatestCount - 2, 1⟩, ⟨greatestCount, greatestCount - 1, 1⟩)) ∧
    Bounded.step ⟨greatestCount, greatestCount - 1, 1⟩ = some none := by
  have hplan : plan ⟨2, 4, 1, 2⟩ ⟨greatestCount - 1, greatestCount, greatestCount - 4, 0, 0⟩ =
      .ok [⟨greatestCount - 3, greatestCount - 2, 2⟩,
        ⟨greatestCount - 1, greatestCount - 1, 1⟩] := by decide
  obtain ⟨hbounded, _, hsteps⟩ := plan_stays_bounded (l := ⟨2, 4, 1, 2⟩)
    (r := ⟨greatestCount - 1, greatestCount, greatestCount - 4, 0, 0⟩) (by decide)
  have hlast := (hsteps _ hplan ⟨greatestCount - 1, greatestCount - 1, 1⟩ (by decide)).2
  refine ⟨hplan, ?_, hlast _ .refl, hlast _ (.step (p := ⟨greatestCount - 2, 1⟩) .refl rfl)⟩
  rw [hplan] at hbounded
  exact hbounded

/-- With one more record available, the start behind the last split does not fit. -/
example : Bounded.planFor ⟨2, 4, 1, 2⟩ ⟨greatestCount, 0, greatestCount - 3, 0, 0⟩ 3 = none := by
  decide

end Harvest.Plan

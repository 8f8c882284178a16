import Harvest.Plan.Split
import Mathlib.Data.List.Chain

/-!
# Pages tile their split

Stepping through a split comes to an end, and the pages on the way tile the records of the split:
each starts where the one before it ended, and asks for at least one record. Tilings of ranges that
follow each other make up a tiling of the whole.
Design: `SPEC_FULL.md:260–261`.
-/

namespace Harvest.Plan

/-! ## Tilings -/

/-- The pages ask for the records behind the first `start` of them, up to record `stop`: each for
at least one, and from where the page before it ended. -/
inductive Tiles : Nat → Nat → List Page → Prop
  | nil (n : Nat) : Tiles n n []
  | cons {p : Page} {start stop : Nat} {ps : List Page} :
      p.skip = start → 0 < p.top → Tiles (start + p.top) stop ps → Tiles start stop (p :: ps)

/-- Whether a page asks for a record. Records are counted from 1. -/
def Page.asksFor (p : Page) (record : Nat) : Bool :=
  p.skip < record && record ≤ p.skip + p.top

namespace Tiles

variable {start middle stop : Nat} {ps qs : List Page}

/-- Tilings of neighbouring ranges join. -/
theorem append (h : Tiles start middle ps) (k : Tiles middle stop qs) :
    Tiles start stop (ps ++ qs) := by
  induction h with
  | nil => exact k
  | cons hskip htop _ ih => exact .cons hskip htop (ih k)

/-- A tiling never goes back. -/
theorem le (h : Tiles start stop ps) : start ≤ stop := by
  induction h with
  | nil => exact Nat.le_refl _
  | cons _ _ _ ih => omega

/-- Every page of a tiling asks for something. -/
theorem top_pos (h : Tiles start stop ps) : ∀ p ∈ ps, 0 < p.top := by
  induction h with
  | nil => simp
  | cons _ htop _ ih => simpa [htop] using ih

/-- A tiling of a range that is not empty starts with the first record of the range. -/
theorem head?_skip (h : Tiles start stop ps) (hlt : start < stop) :
    ps.head?.map (·.skip) = some start := by
  cases h with
  | nil => omega
  | cons hskip => simp [hskip]

/-- A tiling of a range that is not empty ends with the last record of the range. -/
theorem getLast?_stop (h : Tiles start stop ps) (hlt : start < stop) :
    ps.getLast?.map (fun p ↦ p.skip + p.top) = some stop := by
  induction h with
  | nil => omega
  | cons hskip _ hrest ih =>
    cases hrest with
    | nil => simp [hskip]
    | cons _ htop hqs =>
      rw [List.getLast?_cons_cons]
      have := hqs.le
      exact ih (by omega)

/-- Each page of a tiling starts where the one before it ended. -/
theorem isChain (h : Tiles start stop ps) :
    ps.IsChain fun p q ↦ q.skip = p.skip + p.top := by
  induction h with
  | nil => exact .nil
  | cons hskip _ hrest ih =>
    cases hrest with
    | nil => exact .singleton _
    | cons hnext => exact .cons_cons (by rw [hnext, hskip]) ih

/-- No page of a tiling goes back behind its start. -/
theorem le_skip (h : Tiles start stop ps) : ∀ p ∈ ps, start ≤ p.skip := by
  induction h with
  | nil => simp
  | @cons p start stop ps hskip htop _ ih =>
    intro q hq
    obtain rfl | hq := List.mem_cons.mp hq
    · omega
    · have := ih q hq
      omega

/-- No page of a tiling comes twice: each skips more records than those before it. -/
theorem nodup (h : Tiles start stop ps) : ps.Nodup := by
  induction h with
  | nil => exact List.nodup_nil
  | @cons p start stop ps hskip htop hrest ih =>
    refine List.nodup_cons.mpr ⟨fun hp ↦ ?_, ih⟩
    have := hrest.le_skip p hp
    omega

/-- A record of the range is asked for by exactly one page of a tiling, all others by none. -/
theorem countP_asksFor (h : Tiles start stop ps) (record : Nat) :
    ps.countP (·.asksFor record) = if start < record ∧ record ≤ stop then 1 else 0 := by
  induction h with
  | nil n =>
    have : ¬ (n < record ∧ record ≤ n) := by omega
    simp [this]
  | @cons p start stop ps hskip htop hrest ih =>
    have hle := hrest.le
    rw [List.countP_cons, ih, Page.asksFor, hskip]
    by_cases hp : start < record ∧ record ≤ start + p.top
    · have hlater : ¬ start + p.top < record := by omega
      have hrange : record ≤ stop := by omega
      simp [hp, hlater, hrange]
    · have hiff : (start + p.top < record ∧ record ≤ stop) ↔
          (start < record ∧ record ≤ stop) := by omega
      simp [hp, hiff]

end Tiles

/-! ## Steps through a range -/

namespace Cursor

/-- The pages of a walk from a place: a step for each, until the range is used up. -/
inductive Yields : Cursor → List Page → Prop
  | done {c : Cursor} : c.step? = none → Yields c []
  | step {c rest : Cursor} {p : Page} {ps : List Page} :
      c.step? = some (p, rest) → Yields rest ps → Yields c (p :: ps)

variable {c rest : Cursor} {p : Page} {ps qs : List Page}

/-- There is no further page exactly where the range is used up. -/
theorem step?_eq_none_iff : c.step? = none ↔ c.last < c.next := by
  unfold step?
  split
  · next h => simp [h]
  · next h => simp [h]

/-- A step gives the next page and goes on behind it. -/
theorem step?_eq_some_iff :
    c.step? = some (p, rest) ↔
      c.next ≤ c.last ∧ p = ⟨c.next - 1, c.top⟩ ∧ rest = { c with next := c.next + c.top } := by
  unfold step?
  split
  · next h => simp; omega
  · next h => simp [Nat.not_lt.mp h, eq_comm]

/-- A page asks for at least one record where the batch is not empty. -/
theorem top_pos (hb : 0 < c.batch) : 0 < c.top := by
  unfold top
  omega

/-- A page stays within its range. -/
theorem next_add_top_le (h : c.next ≤ c.last) : c.next + c.top ≤ c.last + 1 := by
  unfold top
  omega

/-- A walk has only one list of pages. -/
theorem Yields.unique (h : c.Yields ps) (k : c.Yields qs) : ps = qs := by
  induction h generalizing qs with
  | done hnone =>
    cases k with
    | done => rfl
    | step hsome => simp [hnone] at hsome
  | step hstep _ ih =>
    cases k with
    | done hnone => simp [hstep] at hnone
    | step hsome hrest =>
      obtain ⟨rfl, rfl⟩ : _ ∧ _ := by simpa [hstep] using hsome
      rw [ih hrest]

/-- No page of a walk asks for more than a batch. -/
theorem Yields.top_le (h : c.Yields ps) : ∀ p ∈ ps, p.top ≤ c.batch := by
  induction h with
  | done => simp
  | @step c rest p ps hstep _ ih =>
    obtain ⟨_, rfl, rfl⟩ := step?_eq_some_iff.mp hstep
    intro q hq
    obtain rfl | hq := List.mem_cons.mp hq
    · exact Nat.min_le_left _ _
    · exact ih q hq

/-- As many steps as there are records left are enough for the whole walk. -/
theorem yields_take {n : Nat} (hb : 0 < c.batch) (hn : c.last < c.next + n) :
    c.Yields (c.take n) := by
  induction n generalizing c with
  | zero => exact .done (step?_eq_none_iff.mpr hn)
  | succ n ih =>
    unfold take
    split
    · next h => exact .done h
    · next p rest h =>
      obtain ⟨_, rfl, rfl⟩ := step?_eq_some_iff.mp h
      have htop := top_pos hb
      exact .step h (ih hb (by simp only; omega))

/-- The pages of a walk tile what is left of the range. -/
theorem Yields.tiles (h : c.Yields ps) (hb : 0 < c.batch) (hn : 0 < c.next)
    (hle : c.next ≤ c.last + 1) : Tiles (c.next - 1) c.last ps := by
  induction h with
  | @done c hnone =>
    have hend : c.next - 1 = c.last := by have := step?_eq_none_iff.mp hnone; omega
    rw [hend]
    exact .nil _
  | @step c rest p ps hstep _ ih =>
    obtain ⟨hlast, rfl, rfl⟩ := step?_eq_some_iff.mp hstep
    have hrest := ih hb (by simp only; omega) (next_add_top_le hlast)
    have hnext : c.next - 1 + c.top = c.next + c.top - 1 := by omega
    refine .cons rfl (top_pos hb) ?_
    simpa only [hnext] using hrest

end Cursor

/-! ## The pages of a split -/

namespace Split

variable {s : Split}

/-- Stepping through a split whose batch is not empty comes to an end, and gives its pages. -/
theorem yields_pages (hb : 0 < s.batch) : s.cursor.Yields s.pages := by
  apply Cursor.yields_take hb
  simp only [cursor, recordCount]
  omega

/-- The pages of a split are the only ones that stepping through it gives. -/
theorem yields_iff {ps : List Page} (hb : 0 < s.batch) :
    s.cursor.Yields ps ↔ ps = s.pages := by
  constructor
  · intro h
    exact h.unique (yields_pages hb)
  · rintro rfl
    exact yields_pages hb

/-- The pages of a split tile its records. -/
theorem tiles_pages (hb : 0 < s.batch) (hf : 0 < s.first) (hle : s.first ≤ s.last) :
    Tiles (s.first - 1) s.last s.pages :=
  (yields_pages hb).tiles hb hf (Nat.le_succ_of_le hle)

end Split

end Harvest.Plan

import Harvest.Proofs.Extraction.Records

/-!
# Which splits have records

Before each split that is claimed an extraction looks whether it is to stop. Those up to the first
such look that finds a stop have a record, and the others have none.
-/

namespace Harvest.Extraction

open Disk (ChangesOnly)
open Manifest (Record)
open Plan (IsPageName Page Split)

variable {σ : Type} {x : Extraction σ} {s : Site σ} {index i : Nat} {split : Split}
  {claimed : List (Nat × Split)}

/-! ## Looks between splits -/

/-- The site when the first `i` of the claimed splits have been dealt with: the look before the
next one is a look at it. -/
def siteBefore (x : Extraction σ) (claimed : List (Nat × Split)) (s : Site σ) (i : Nat) : Site σ :=
  ((x.fetchSplits (claimed.take i)).run s).state

private theorem siteBefore_zero : x.siteBefore claimed s 0 = s := rfl

/-- Behind a split that is taken up, the extraction goes on with the others. -/
theorem siteBefore_succ (h : x.stops s = false) :
    x.siteBefore ((index, split) :: claimed) s (i + 1) =
      x.siteBefore claimed ((x.fetchSplit index split).run (x.looked s)).state i := by
  rw [siteBefore, List.take_succ_cons, fetchSplits_of_not_stops h]
  rfl

/-- There are no more records than splits. -/
theorem length_fetchSplits_le (x : Extraction σ) (claimed : List (Nat × Split)) (s : Site σ) :
    ((x.fetchSplits claimed).run s).value.length ≤ claimed.length := by
  induction claimed generalizing s with
  | nil => exact Nat.le_refl _
  | cons c claimed ih =>
    cases hstop : x.stops s with
    | true =>
      rw [fetchSplits_of_stops hstop]
      exact Nat.zero_le _
    | false =>
      rw [fetchSplits_of_not_stops hstop]
      exact Nat.succ_le_succ (ih _)

/-- No stop is seen before a split that has a record. -/
theorem not_stops_of_lt_length (h : i < ((x.fetchSplits claimed).run s).value.length) :
    x.stops (x.siteBefore claimed s i) = false := by
  induction claimed generalizing s i with
  | nil => exact absurd h (Nat.not_lt_zero _)
  | cons c claimed ih =>
    cases hstop : x.stops s with
    | true =>
      rw [fetchSplits_of_stops hstop] at h
      exact absurd h (Nat.not_lt_zero _)
    | false =>
      rw [fetchSplits_of_not_stops hstop] at h
      cases i with
      | zero => rwa [siteBefore_zero]
      | succ i =>
        rw [siteBefore_succ hstop]
        exact ih (Nat.lt_of_succ_lt_succ h)

/-- Where splits are left without a record, a stop is seen before the first of them. -/
theorem stops_of_length_lt (h : ((x.fetchSplits claimed).run s).value.length < claimed.length) :
    x.stops (x.siteBefore claimed s ((x.fetchSplits claimed).run s).value.length) = true := by
  induction claimed generalizing s with
  | nil => exact absurd h (Nat.not_lt_zero _)
  | cons c claimed ih =>
    cases hstop : x.stops s with
    | true =>
      rw [fetchSplits_of_stops hstop]
      exact hstop
    | false =>
      rw [fetchSplits_of_not_stops hstop] at h ⊢
      rw [List.length_cons, siteBefore_succ hstop]
      exact ih (Nat.lt_of_succ_lt_succ h)

/-! ## Records of splits -/

/-- Whether a name is one of a page of certain splits. -/
def IsNameOf (claimed : List (Nat × Split)) (name : String) : Prop :=
  ∃ c ∈ claimed, ∃ n, IsPageName c.1 n name

/-- A split that is fetched has a record of how far it came, and only its files are touched. -/
theorem fetchSplit_concludes (x : Extraction σ) (index : Nat) (split : Split) (s : Site σ) :
    x.Concludes ((x.fetchSplit index split).run s).state.disk index split
        ((x.fetchSplit index split).run s).value ∧
      ChangesOnly x.directory (fun name ↦ ∃ n, IsPageName index n name) s.disk
        ((x.fetchSplit index split).run s).state.disk := by
  obtain ⟨hvalue, hstate⟩ := x.fetchSplit_eq index split s
  rw [hvalue, hstate]
  exact fetchPages_concludes counts_startRecord rfl rfl

/-- Fetching splits touches files of their pages only. -/
theorem fetchSplits_changesOnly (s : Site σ) : ChangesOnly x.directory (IsNameOf claimed) s.disk
    ((x.fetchSplits claimed).run s).state.disk := by
  induction claimed generalizing s with
  | nil => exact .refl _
  | cons c claimed ih =>
    cases hstop : x.stops s with
    | true =>
      rw [fetchSplits_of_stops hstop]
      exact .refl _
    | false =>
      rw [fetchSplits_of_not_stops hstop]
      have hfirst := (x.fetchSplit_concludes c.1 c.2 (x.looked s)).2
      refine (hfirst.mono fun name hname ↦ ⟨c, List.mem_cons_self, hname⟩).trans ?_
      refine (ih _).mono ?_
      rintro name ⟨other, hother, hname⟩
      exact ⟨other, List.mem_cons_of_mem _ hother, hname⟩

/-- The records are those of the first splits, and each says how far its split came. -/
theorem fetchSplits_concludes {record : Record} (hnodup : (claimed.map (·.1)).Nodup)
    (h : ((x.fetchSplits claimed).run s).value[i]? = some record) :
    ∃ c, claimed[i]? = some c ∧
      x.Concludes ((x.fetchSplits claimed).run s).state.disk c.1 c.2 record := by
  induction claimed generalizing s i with
  | nil => simp [fetchSplits] at h
  | cons c claimed ih =>
    cases hstop : x.stops s with
    | true =>
      rw [fetchSplits_of_stops hstop] at h
      simp at h
    | false =>
      rw [fetchSplits_of_not_stops hstop] at h ⊢
      rw [List.map_cons, List.nodup_cons] at hnodup
      cases i with
      | zero =>
        obtain rfl : _ = record := Option.some.inj h
        have hfirst := (x.fetchSplit_concludes c.1 c.2 (x.looked s)).1
        refine ⟨c, rfl, hfirst.of_changesOnly (fetchSplits_changesOnly _) ?_⟩
        -- The splits behind it have other positions, so none of their files is one of its own.
        rintro n ⟨other, hother, m, hname⟩
        have hindex := (Plan.isPageName_pageFileName.mp hname).1
        exact hnodup.1 (hindex ▸ List.mem_map_of_mem hother)
      | succ i => exact ih hnodup.2 h

end Harvest.Extraction

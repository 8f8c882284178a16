import Harvest.Proofs.Extraction.Jobs

/-!
# What workers keep true together

Every split that has been claimed agrees with its trail and the disk, the records are those of the
splits that have ended, and workers leave a split unclaimed only behind a stop. This holds before
the first turn and is kept by every turn, so it holds when all workers have left.
-/

namespace Harvest.Extraction

open Disk (ChangesOnly)
open Manifest (Record)
open Plan (Split)

variable {σ : Type} {x : Extraction σ} {s site : Site σ} {p q : Pool σ} {splits : List Split}
  {turns : List (Turn σ)} {turn : Turn σ} {i index workers : Nat} {split : Split} {job job' : Job}

/-- What holds of a pool after some turns. -/
structure Sound (x : Extraction σ) (splits : List Split) (turns : List (Turn σ)) (p : Pool σ) :
    Prop where
  items_eq : p.queue.items = splits
  length_jobs : p.jobs.length = min p.queue.claims splits.length
  agrees : ∀ i job, p.jobs[i]? = some job → ∃ split, splits[i]? = some split ∧
    Agrees x p.site.disk i split (trail i turns) job
  untouched : ∀ i, p.jobs.length ≤ i → trail i turns = .empty
  records_perm : p.records.Perm (p.jobs.filterMap Job.record?)
  passed_mem : ∀ i, p.jobs[i]? = some .passed → .passed i ∈ turns
  /-- A worker has not left, or a split was passed, or all of them have been claimed. -/
  busy : 0 < p.idle ∨ (∃ job ∈ p.jobs, job.isOver = false) ∨ Job.passed ∈ p.jobs ∨
    splits.length ≤ p.queue.claims

/-- All is well before the first turn. -/
theorem sound_start (s : Site σ) (splits : List Split) (h : 0 < workers) :
    Sound x splits [] (.start s splits workers) where
  items_eq := rfl
  length_jobs := (Nat.zero_min _).symm
  agrees := by simp [Pool.start]
  untouched := fun _ _ ↦ rfl
  records_perm := .nil
  passed_mem := by simp [Pool.start]
  busy := .inl h

/-! ## Claims -/

/-- To turn to the queue leaves no trail. -/
theorem trail_claimed (i index : Nat) (turns : List (Turn σ)) :
    trail i (turns ++ [.claimed index]) = trail i turns := by
  rw [trail_concat]
  exact ite_self _

private theorem trail_retired (i : Nat) (turns : List (Turn σ)) :
    trail i (turns ++ [.retired]) = trail i turns := by
  rw [trail_concat]
  exact ite_self _

/-- The split that is claimed next is the one behind those that have been claimed. -/
theorem Sound.next_eq_some (h : Sound x splits turns p)
    (hclaim : p.queue.next.1 = some (index, split)) :
    p.jobs.length = index ∧ p.queue.claims = index ∧ splits[index]? = some split := by
  simp only [Queue.next, Option.map_eq_some_iff, Prod.mk.injEq, h.items_eq] at hclaim
  obtain ⟨_, hsplit, rfl, rfl⟩ := hclaim
  obtain ⟨hlt, -⟩ := List.getElem?_eq_some_iff.mp hsplit
  exact ⟨by rw [h.length_jobs]; omega, rfl, hsplit⟩

private theorem Sound.claim (h : Sound x splits turns p)
    (hclaim : p.queue.next.1 = some (index, split)) :
    Sound x splits (turns ++ [.claimed index]) p.claim := by
  obtain ⟨hindex, hclaims, hsplit⟩ := h.next_eq_some hclaim
  obtain ⟨hlt, -⟩ := List.getElem?_eq_some_iff.mp hsplit
  rw [Pool.claim_of_some hclaim]
  constructor
  · exact h.items_eq
  · simp only [List.length_append, List.length_singleton, Queue.next]
    omega
  · intro i job hjob
    rw [trail_claimed]
    obtain hi | rfl | hi := Nat.lt_trichotomy i index
    · rw [List.getElem?_append_left (by omega)] at hjob
      exact h.agrees i job hjob
    · rw [← hindex, List.getElem?_concat_length, Option.some.injEq] at hjob
      obtain rfl := hjob
      rw [h.untouched i (by omega)]
      exact ⟨split, hsplit, .held⟩
    · rw [List.getElem?_eq_none (by simp; omega)] at hjob
      simp at hjob
  · intro i hi
    rw [trail_claimed]
    rw [List.length_append, List.length_singleton] at hi
    exact h.untouched i (by omega)
  · have hnone : [Job.held split].filterMap Job.record? = [] := rfl
    rw [List.filterMap_append, hnone, List.append_nil]
    exact h.records_perm
  · intro i hjob
    obtain hi | hi := Nat.lt_or_ge i p.jobs.length
    · rw [List.getElem?_append_left hi] at hjob
      exact List.mem_append_left _ (h.passed_mem i hjob)
    · rw [List.getElem?_append_right hi, List.getElem?_singleton] at hjob
      simp at hjob
  · exact .inr (.inl ⟨_, List.mem_concat_self, rfl⟩)

private theorem Sound.retire (h : Sound x splits turns p) (hclaim : p.queue.next.1 = none) :
    Sound x splits (turns ++ [.retired]) p.claim := by
  have hall : splits.length ≤ p.queue.claims := by
    simpa [Queue.next, h.items_eq] using hclaim
  rw [Pool.claim_of_none hclaim]
  constructor
  · exact h.items_eq
  · simp only [h.length_jobs, Queue.next]
    omega
  · intro i job hjob
    rw [trail_retired]
    exact h.agrees i job hjob
  · intro i hi
    rw [trail_retired]
    exact h.untouched i hi
  · exact h.records_perm
  · intro i hjob
    exact List.mem_append_left _ (h.passed_mem i hjob)
  · exact .inr (.inr (.inr (Nat.le_succ_of_le hall)))

/-! ## Turns on a split -/

/-- To put something in the place of what has no record adds the record of what is put there. -/
private theorem filterMap_set_perm {jobs : List Job} (h : jobs[i]? = some job)
    (hrecord : job.record? = none) :
    (jobs.filterMap Job.record? ++ job'.record?.toList).Perm
      ((jobs.set i job').filterMap Job.record?) := by
  induction jobs generalizing i with
  | nil => simp at h
  | cons first jobs ih =>
    cases i with
    | zero =>
      obtain rfl : first = job := by simpa using h
      rw [List.set_cons_zero, List.filterMap_cons, hrecord]
      cases hrecord' : job'.record? with
      | none => simp [hrecord']
      | some record => simp [hrecord']
    | succ i =>
      have hrest := ih (i := i) (by simpa using h)
      cases hfirst : first.record? with
      | none => simpa [hfirst] using hrest
      | some record => simpa [hfirst] using hrest

/-- Only a split that has not ended has its turn. -/
theorem Advances.isOver_eq (h : Advances x s i job turn job' site) :
    job.isOver = false ∧ job.record? = none := by
  cases h <;> exact ⟨rfl, rfl⟩

/-- A split is passed with a turn that says so. -/
theorem Advances.eq_passed (h : Advances x s i job turn .passed site) : turn = .passed i := by
  cases h
  rfl

/-- Behind a turn the worker is still on its split, or free again, or has passed it. -/
theorem Advances.isOver_or (h : Advances x s i job turn job' site) :
    job'.isOver = false ∨ job' = .passed ∨ ∃ record, job' = .ended record := by
  cases h with
  | pass => exact .inr (.inl rfl)
  | begin | ask | grant | save => exact .inl rfl
  | interrupt | refuse | spoil | finish => exact .inr (.inr ⟨_, rfl⟩)

private theorem Sound.advance (h : Sound x splits turns p) (hjob : p.jobs[i]? = some job)
    (hadvances : Advances x p.site i job turn job' site) :
    Sound x splits (turns ++ [turn]) (p.put i job' site) := by
  obtain ⟨hlt, -⟩ := List.getElem?_eq_some_iff.mp hjob
  have hindex := hadvances.index?_eq
  have hother : ∀ j ≠ i, trail j (turns ++ [turn]) = trail j turns := by
    intro j hj
    rw [trail_concat, hindex, if_neg (by simpa using Ne.symm hj)]
  constructor
  · exact h.items_eq
  · simpa [Pool.put] using h.length_jobs
  · intro j other hother'
    simp only [Pool.put] at hother'
    by_cases hj : j = i
    · subst hj
      rw [List.getElem?_set_self hlt, Option.some.injEq] at hother'
      obtain rfl := hother'
      obtain ⟨split, hsplit, hagrees⟩ := h.agrees j job hjob
      rw [trail_concat, if_pos hindex]
      exact ⟨split, hsplit, hadvances.agrees hagrees⟩
    · rw [List.getElem?_set_ne (Ne.symm hj)] at hother'
      obtain ⟨split, hsplit, hagrees⟩ := h.agrees j other hother'
      rw [hother j hj]
      -- The worker touches files of its own split, and these have other names.
      refine ⟨split, hsplit, hagrees.of_changesOnly hadvances.changesOnly fun n ↦ ?_⟩
      rintro ⟨m, hname⟩
      exact hj (Plan.isPageName_pageFileName.mp hname).1.symm
  · intro j hj
    rw [Pool.put, List.length_set] at hj
    rw [hother j (by omega)]
    exact h.untouched j hj
  · exact (h.records_perm.append_right _).trans
      (filterMap_set_perm hjob hadvances.isOver_eq.2)
  · intro j hpassed
    simp only [Pool.put] at hpassed
    by_cases hj : j = i
    · subst hj
      rw [List.getElem?_set_self hlt, Option.some.injEq] at hpassed
      subst hpassed
      rw [hadvances.eq_passed]
      exact List.mem_concat_self
    · rw [List.getElem?_set_ne (Ne.symm hj)] at hpassed
      exact List.mem_append_left _ (h.passed_mem j hpassed)
  · have hmem : job' ∈ p.jobs.set i job' := List.mem_set hlt job'
    obtain hbusy | rfl | ⟨record, rfl⟩ := hadvances.isOver_or
    · exact .inr (.inl ⟨job', hmem, hbusy⟩)
    · exact .inr (.inr (.inl hmem))
    · exact .inl (Nat.lt_of_lt_of_le Nat.zero_lt_one (Nat.le_add_left _ _))

/-! ## All turns -/

/-- Every turn keeps all well. -/
theorem Sound.takes (h : Sound x splits turns p) (htakes : Takes x p turn q) :
    Sound x splits (turns ++ [turn]) q := by
  cases htakes with
  | claim hidle hclaim => exact h.claim hclaim
  | retire hidle hclaim => exact h.retire hclaim
  | advance hjob hadvances => exact h.advance hjob hadvances

/-- All is well after any turns. -/
theorem sound_of_works (hworkers : 0 < workers) (h : Works x (.start s splits workers) turns p) :
    Sound x splits turns p := by
  induction h with
  | refl => exact sound_start s splits hworkers
  | snoc hworks htakes ih => exact ih.takes htakes

end Harvest.Extraction

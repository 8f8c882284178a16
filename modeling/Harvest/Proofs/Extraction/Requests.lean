import Harvest.Proofs.Endpoints.Options
import Harvest.Proofs.Extraction.Outcomes

/-!
# What all workers ask for together

The calls that workers make are, split by split, those of the trails. The URLs that they ask for,
and those that are granted, are read back as the pages of these calls.
-/

namespace Harvest.Extraction

open Endpoints (pageOf)
open Plan (Page Split)

variable {σ α : Type} {x : Extraction σ} {p : Pool σ} {splits : List Split}
  {turns : List (Turn σ)} {t : Try σ} {i n : Nat}

/-! ## The calls of all workers -/

/-- The call that a turn makes, and for which split. -/
def Turn.call? : Turn σ → Option (Nat × Try σ)
  | fetched index page world => some (index, ⟨page, world⟩)
  | _ => none

/-- The calls that some turns make. -/
def tries (turns : List (Turn σ)) : List (Nat × Try σ) := turns.filterMap Turn.call?

/-- The tries of some turns are the calls for pages among them. -/
theorem mem_tries : (i, t) ∈ tries turns ↔ .fetched i t.page t.world ∈ turns := by
  constructor
  · intro h
    obtain ⟨turn, hturn, htry⟩ := List.mem_filterMap.mp h
    cases turn with
    | fetched index page world =>
      obtain ⟨rfl, rfl⟩ : index = i ∧ ⟨page, world⟩ = t := by simpa [Turn.call?] using htry
      exact hturn
    | _ => simp [Turn.call?] at htry
  · intro h
    exact List.mem_filterMap.mpr ⟨_, h, rfl⟩

/-- Where every turn adds to a part of a trail, some turns add all of this. -/
theorem foldl_add_eq {f : Trail σ → List α} {g : Turn σ → Option α}
    (hadd : ∀ happened turn, f (happened.add turn) = f happened ++ (g turn).toList)
    (turns : List (Turn σ)) (happened : Trail σ) :
    f (turns.foldl Trail.add happened) = f happened ++ turns.filterMap g := by
  induction turns generalizing happened with
  | nil => simp
  | cons turn turns ih =>
    rw [List.foldl_cons, ih, hadd, List.append_assoc, List.filterMap_cons]
    cases g turn <;> rfl

/-- The calls of a trail are those for its split, in order. -/
theorem tries_trail (i : Nat) (turns : List (Turn σ)) :
    (trail i turns).tries = ((tries turns).filter (·.1 == i)).map (·.2) := by
  have hadd : ∀ (happened : Trail σ) turn,
      (happened.add turn).tries = happened.tries ++ (turn.call?.map (·.2)).toList := by
    intro happened turn
    cases turn with
    | written index number outcome => cases outcome <;> simp [Trail.add, Turn.call?]
    | _ => simp [Trail.add, Turn.call?]
  rw [trail, foldl_add_eq hadd, tries, List.filter_filterMap, List.map_filterMap,
    List.filterMap_filter]
  apply List.filterMap_congr
  intro turn _
  cases turn with
  | fetched index page world =>
    by_cases hindex : index = i <;> simp [Turn.index?, Turn.call?, hindex]
  | _ => simp [Turn.call?]

/-- The number of the page before which a turn sees a stop. -/
def Turn.stop? : Turn σ → Option Nat
  | interrupted _ number => some number
  | _ => none

/-- The number of the page that a turn fails to write, and why. -/
def Turn.fault? : Turn σ → Option (Nat × Service.Error)
  | written _ number (.error e) => some (number, e)
  | _ => none

/-- A stop that a trail tells of was seen. -/
theorem of_mem_stops (h : n ∈ (trail i turns).stops) : .interrupted i n ∈ turns := by
  have hadd : ∀ (happened : Trail σ) turn,
      (happened.add turn).stops = happened.stops ++ turn.stop?.toList := by
    intro happened turn
    cases turn with
    | written index number outcome => cases outcome <;> simp [Trail.add, Turn.stop?]
    | _ => simp [Trail.add, Turn.stop?]
  rw [trail, foldl_add_eq hadd] at h
  obtain ⟨turn, hturn, hstop⟩ := List.mem_filterMap.mp h
  obtain ⟨hmem, hindex⟩ := List.mem_filter.mp hturn
  cases turn with
  | interrupted index number =>
    obtain rfl : index = i := by simpa [Turn.index?] using hindex
    obtain rfl : number = n := by simpa [Turn.stop?] using hstop
    exact hmem
  | _ => simp [Turn.stop?] at hstop

/-- A page that a trail says could not be written could not. -/
theorem of_mem_faults {e : Service.Error} (h : (n, e) ∈ (trail i turns).faults) :
    .written i n (.error e) ∈ turns := by
  have hadd : ∀ (happened : Trail σ) turn,
      (happened.add turn).faults = happened.faults ++ turn.fault?.toList := by
    intro happened turn
    cases turn with
    | written index number outcome => cases outcome <;> simp [Trail.add, Turn.fault?]
    | _ => simp [Trail.add, Turn.fault?]
  rw [trail, foldl_add_eq hadd] at h
  obtain ⟨turn, hturn, hfault⟩ := List.mem_filterMap.mp h
  obtain ⟨hmem, hindex⟩ := List.mem_filter.mp hturn
  cases turn with
  | written index number outcome =>
    cases outcome with
    | ok => simp [Turn.fault?] at hfault
    | error fault =>
      obtain rfl : index = i := by simpa [Turn.index?] using hindex
      obtain ⟨rfl, rfl⟩ : number = n ∧ fault = e := by simpa [Turn.fault?] using hfault
      exact hmem
  | _ => simp [Turn.fault?] at hfault

/-- There are no calls but for splits. -/
theorem Sound.lt_of_mem_tries (h : Sound x splits turns p) (hmem : (i, t) ∈ tries turns) :
    i < splits.length := by
  apply Nat.lt_of_not_le
  intro hle
  have hjobs : p.jobs.length ≤ i := by
    rw [h.length_jobs]
    omega
  have hnone : (trail i turns).tries = [] := by
    rw [h.untouched i hjobs]
    rfl
  rw [tries_trail, List.map_eq_nil_iff, List.filter_eq_nil_iff] at hnone
  exact hnone _ hmem (beq_self_eq_true i)

/-- What is numbered below `n` is, but for its order, what has each number in turn. -/
theorem perm_flatMap_filter {l : List (Nat × α)} (h : ∀ a ∈ l, a.1 < n) :
    l.Perm ((List.range n).flatMap fun i ↦ l.filter (·.1 == i)) := by
  induction n generalizing l with
  | zero =>
    have hnil : l = [] := List.eq_nil_iff_forall_not_mem.mpr fun a ha ↦ Nat.not_lt_zero _ (h a ha)
    rw [hnil]
    exact .nil
  | succ n ih =>
    have hbelow := ih (l := l.filter (·.1 < n)) fun a ha ↦ by simpa using (List.mem_filter.mp ha).2
    have hsame : (List.range n).flatMap (fun i ↦ (l.filter (·.1 < n)).filter (·.1 == i)) =
        (List.range n).flatMap fun i ↦ l.filter (·.1 == i) := by
      apply List.flatMap_congr
      intro i hi
      have hlt := List.mem_range.mp hi
      rw [List.filter_filter]
      apply List.filter_congr
      intro a _
      by_cases ha : a.1 = i <;> simp [ha, hlt]
    have hlast : l.filter (fun a ↦ !decide (a.1 < n)) = l.filter (·.1 == n) := by
      apply List.filter_congr
      intro a ha
      have hlt := h a ha
      by_cases hn : a.1 = n
      · simp [hn]
      · have hbelow : a.1 < n := by omega
        simp [hn, hbelow]
    rw [List.range_succ, List.flatMap_append, ← hsame]
    calc
      l.Perm (l.filter (·.1 < n) ++ l.filter (fun a ↦ !decide (a.1 < n))) :=
        (List.filter_append_perm _ l).symm
      _ |>.Perm _ := by
        rw [hlast]
        simpa using hbelow.append_right _

/-! ## What workers ask for -/

/-- What happens in a turn, but for what is done to the disk. -/
def Turn.moments (x : Extraction σ) : Turn σ → List Session.Moment
  | fetched _ page world => Try.moments x ⟨page, world⟩
  | _ => []

/-- The URLs that requests of some turns ask for. -/
def requested (x : Extraction σ) (turns : List (Turn σ)) : List Url :=
  (turns.flatMap (Turn.moments x)).filterMap Session.Moment.url?

/-- The URLs that are granted in some turns, and the answers. -/
def granted (x : Extraction σ) (turns : List (Turn σ)) : List (Url × Http.Response) :=
  (turns.flatMap (Turn.moments x)).filterMap Session.Moment.granted?

/-- The body of the answer to a call. -/
def Try.body (x : Extraction σ) (t : Try σ) : Text.Bytes :=
  match t.answer x with
  | .ok response => response.body
  | .error _ => []

/-- A try that is granted has the body of its answer. -/
theorem Try.body_eq {response : Http.Response} (h : t.answer x = .ok response) :
    t.body x = response.body := by
  rw [body, h]

private theorem pageOf_pageUrl (x : Extraction σ) (page : Page) :
    pageOf (pageUrl x page) = some page :=
  Endpoints.pageOf_url _ page

/-- Where all calls are granted, the pages that are granted are those of the calls. -/
theorem map_granted (h : ∀ a ∈ tries turns, ∃ response, a.2.answer x = .ok response) :
    (granted x turns).map (fun a ↦ (pageOf a.1, a.2.body)) =
      (tries turns).map fun a ↦ (some a.2.page, a.2.body x) := by
  induction turns with
  | nil => rfl
  | cons turn turns ih =>
    cases turn with
    | fetched index page world =>
      have htries : tries (.fetched index page world :: turns) =
          (index, ⟨page, world⟩) :: tries turns := rfl
      rw [htries] at h ⊢
      obtain ⟨⟨response, hanswer⟩, hrest⟩ := List.forall_mem_cons.mp h
      have hgranted := ((Try.moments_spec x ⟨page, world⟩).2 response hanswer).2
      rw [granted, List.flatMap_cons, List.filterMap_append, Turn.moments, hgranted, ← granted,
        List.map_append, ih hrest]
      simp [pageOf_pageUrl, Try.body_eq hanswer]
    | _ => exact ih h

/-- The pages that are asked for are those of the calls. -/
theorem mem_requested (h : ∀ a ∈ tries turns, ∃ response, a.2.answer x = .ok response)
    {found : Option Page} :
    found ∈ (requested x turns).map pageOf ↔ ∃ a ∈ tries turns, found = some a.2.page := by
  simp only [requested, List.mem_map, List.mem_filterMap, List.mem_flatMap]
  constructor
  · rintro ⟨url, ⟨m, ⟨turn, hturn, hm⟩, hurl⟩, rfl⟩
    cases turn with
    | fetched index page world =>
      refine ⟨(index, ⟨page, world⟩), mem_tries.mpr hturn, ?_⟩
      cases m with
      | sent kept request outcome =>
        obtain rfl : request.url = url := by simpa [Session.Moment.url?] using hurl
        rw [(Try.moments_spec x ⟨page, world⟩).1 kept request outcome hm, pageOf_pageUrl]
      | _ => simp [Session.Moment.url?] at hurl
    | _ => simp [Turn.moments] at hm
  · rintro ⟨⟨index, t⟩, hmem, rfl⟩
    obtain ⟨response, hanswer⟩ := h _ hmem
    -- A granted request is one that was sent.
    have hgranted : (pageUrl x t.page, response) ∈
        (t.moments x).filterMap Session.Moment.granted? := by
      rw [((t.moments_spec x).2 response hanswer).2]
      exact List.mem_singleton_self _
    obtain ⟨m, hm, hurl⟩ := List.mem_filterMap.mp hgranted
    refine ⟨pageUrl x t.page, ⟨m, ⟨_, mem_tries.mp hmem, hm⟩, ?_⟩, pageOf_pageUrl x t.page⟩
    cases m with
    | sent kept request outcome =>
      simp only [Session.Moment.granted?, Option.map_eq_some_iff, Prod.mk.injEq] at hurl
      obtain ⟨_, -, hurl, -⟩ := hurl
      rw [Session.Moment.url?, hurl]
    | _ => simp [Session.Moment.granted?] at hurl

end Harvest.Extraction

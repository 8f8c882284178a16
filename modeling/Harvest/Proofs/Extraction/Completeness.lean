import Harvest.Proofs.Extraction.Splits
import Harvest.Proofs.Plan.Coverage

/-!
# What a complete manifest tells

A manifest that is complete tells nothing of splits without a record. It holds a record of every
split, and the files on the disk hold every record of the range, exactly where no stop was seen
before a split was taken up.
Design: `SPEC_FULL.md:270–272`.
-/

namespace Harvest.Extraction

open Disk (ChangesOnly)
open Manifest (Record)
open Plan (Limits Request Split)

variable {σ : Type} {x : Extraction σ} {s : Site σ} {available : Nat} {splits : List Split}
  {m : Manifest} {i : Nat} {record : Record}

/-! ## The records of a manifest -/

/-- The site that is looked at before split `i` is taken up. -/
def siteAt (x : Extraction σ) (splits : List Split) (s : Site σ) (i : Nat) : Site σ :=
  x.siteBefore (Queue.ofList splits).waiting (x.prepared s) i

/-- Each record is about the split at its position. -/
theorem concludes_fetched (h : (x.fetched splits s).value[i]? = some record) :
    ∃ split, splits[i]? = some split ∧
      x.Concludes (x.fetched splits s).state.disk i split record := by
  obtain ⟨c, hc, hconcludes⟩ := fetchSplits_concludes (Queue.nodup_waiting_ofList splits) h
  rw [Queue.getElem?_waiting_ofList, Option.map_eq_some_iff] at hc
  obtain ⟨split, hsplit, rfl⟩ := hc
  exact ⟨split, hsplit, hconcludes⟩

/-- The records of a manifest are those of the splits in the order they were taken up. -/
theorem manifest_splits : (x.manifest available splits s).splits = (x.fetched splits s).value := by
  refine List.mergeSort_of_pairwise (List.pairwise_iff_getElem.mpr fun i j hi hj hij ↦ ?_)
  obtain ⟨_, -, hi⟩ := concludes_fetched (List.getElem?_eq_getElem hi)
  obtain ⟨_, -, hj⟩ := concludes_fetched (List.getElem?_eq_getElem hj)
  rw [hi.index_eq, hj.index_eq]
  simpa using Nat.le_of_lt hij

/-- A manifest that a run has given tells of the first splits, up to one before which a stop was
seen, and what it tells of them is so on the disk. -/
structure TellsFirst (x : Extraction σ) (splits : List Split) (s : Site σ) (disk : Disk)
    (records : List Record) : Prop where
  length_le : records.length ≤ splits.length
  concludes : ∀ i record, records[i]? = some record →
    ∃ split, splits[i]? = some split ∧ x.Concludes disk i split record
  not_stops : ∀ i < records.length, x.stops (x.siteAt splits s i) = false
  stops : records.length < splits.length → x.stops (x.siteAt splits s records.length) = true

/-- The manifest that a run gives tells of the first splits. -/
theorem run_tellsFirst (h : ((x.run available splits).run s).value = .ok m) :
    x.TellsFirst splits s ((x.run available splits).run s).state.disk m.splits := by
  obtain ⟨-, rfl, disk, hwrite, hstate⟩ := run_ok h
  rw [hstate, manifest_splits]
  have hchange : ChangesOnly x.directory (· = Manifest.fileName)
      (x.fetched splits s).state.disk disk :=
    Disk.changesOnly_write Plan.isPlain_manifest hwrite
  constructor
  · rw [← Queue.length_waiting_ofList splits]
    exact x.length_fetchSplits_le _ _
  · intro i record hrecord
    obtain ⟨split, hsplit, hconcludes⟩ := concludes_fetched hrecord
    refine ⟨split, hsplit, hconcludes.of_changesOnly hchange fun n hname ↦ ?_⟩
    exact Plan.not_isPageName_manifest (.inl hname.symm)
  · intro i hi
    exact not_stops_of_lt_length hi
  · intro hlt
    rw [← Queue.length_waiting_ofList splits] at hlt
    exact stops_of_length_lt hlt

/-! ## Complete manifests -/

/-- A record that says that its split was completed, and tells the truth. -/
structure Completes (x : Extraction σ) (disk : Disk) (index : Nat) (split : Split)
    (record : Record) : Prop extends Concludes x disk index split record where
  completed : record.outcome = .completed

/-- Whether there is a record of every split, and each says that its split was completed. -/
def CompletesAll (x : Extraction σ) (disk : Disk) (splits : List Split) (records : List Record) :
    Prop :=
  ∀ i split, splits[i]? = some split → ∃ record ∈ records, x.Completes disk i split record

/-- Whether all of some splits are taken up: no look before any of them finds a stop. -/
def TakesUpAll (x : Extraction σ) (splits : List Split) (s : Site σ) : Prop :=
  ∀ i < splits.length, x.stops (x.siteAt splits s i) = false

/-- Whether every record behind the first `skip` ones, `total` of them, lies on the disk: in the
file of a page that asks for it, as the service granted that page. -/
def HoldsRange (x : Extraction σ) (disk : Disk) (splits : List Split) (skip total : Nat) : Prop :=
  ∀ number, skip < number → number ≤ skip + total →
    ∃ i split n page body, splits[i]? = some split ∧ split.pages[n]? = some page ∧
      page.asksFor number = true ∧ x.Grants page body ∧
      disk.read (pagePath x.directory i n) = .ok body

/-- All pages of a split that was completed lie on the disk. -/
theorem Completes.exists_saved {disk : Disk} {split : Split} (h : x.Completes disk i split record) :
    ∃ bodies, x.Saved disk i split.pages bodies ∧ record.bytes = (bodies.map List.length).sum := by
  obtain ⟨bodies, hsaved, hbytes⟩ := h.saved
  rw [h.completed_iff.mp h.completed, List.take_length] at hsaved
  exact ⟨bodies, hsaved, hbytes⟩

/-- Where all splits of a plan were completed, every record of the range lies on the disk. -/
theorem CompletesAll.holdsRange {disk : Disk} {records : List Record} {l : Limits} {r : Request}
    (h : x.CompletesAll disk splits records) (hplan : Plan.plan l r = .ok splits)
    (ha : r.available < Plan.greatestCount) : x.HoldsRange disk splits r.skip r.extent := by
  intro number hlt hle
  obtain ⟨split, hsplit, page, hpage, hasks⟩ := Plan.exists_asksFor hplan ha hlt hle
  obtain ⟨i, hi⟩ := List.mem_iff_getElem?.mp hsplit
  obtain ⟨n, hn⟩ := List.mem_iff_getElem?.mp hpage
  obtain ⟨record, -, hcompletes⟩ := h i split hi
  obtain ⟨bodies, hsaved, -⟩ := hcompletes.exists_saved
  have hbody : n < bodies.length := by
    rw [hsaved.length_eq]
    exact (List.getElem?_eq_some_iff.mp hn).1
  obtain ⟨hgrants, hread⟩ := hsaved.held n page bodies[n] hn (List.getElem?_eq_getElem hbody)
  exact ⟨i, split, n, page, bodies[n], hi, hn, hasks, hgrants, hread⟩

/-- The records of a complete manifest are completed ones. -/
theorem completes_of_isComplete
    (hrun : ((x.run available splits).run s).value = .ok m) (hcomplete : m.isComplete = true)
    (hrecord : m.splits[i]? = some record) : ∃ split, splits[i]? = some split ∧
      x.Completes ((x.run available splits).run s).state.disk i split record := by
  obtain ⟨split, hsplit, hconcludes⟩ := (run_tellsFirst hrun).concludes i record hrecord
  have hcompleted : record.outcome = .completed := by
    simpa using List.all_eq_true.mp hcomplete record (List.mem_of_getElem? hrecord)
  exact ⟨split, hsplit, hconcludes, hcompleted⟩

/-- A complete manifest holds a record of every split exactly where no stop was seen before a split
was taken up. -/
theorem completesAll_iff_takesUpAll
    (hrun : ((x.run available splits).run s).value = .ok m) (hcomplete : m.isComplete = true) :
    x.CompletesAll ((x.run available splits).run s).state.disk splits m.splits ↔
      x.TakesUpAll splits s := by
  have htells := run_tellsFirst hrun
  constructor
  · intro hall
    -- A split without a record would be the one at the position behind the last record.
    have hlength : splits.length ≤ m.splits.length := by
      refine Nat.le_of_not_lt fun hlt ↦ ?_
      obtain ⟨record, hmem, hrecord⟩ := hall _ _ (List.getElem?_eq_getElem hlt)
      obtain ⟨j, hj⟩ := List.mem_iff_getElem?.mp hmem
      obtain ⟨_, -, hother⟩ := htells.concludes j record hj
      have hlt' := (List.getElem?_eq_some_iff.mp hj).1
      have hindex : m.splits.length = j := hrecord.index_eq.symm.trans hother.index_eq
      omega
    intro i hi
    exact htells.not_stops i (Nat.lt_of_lt_of_le hi hlength)
  · intro htaken i split hsplit
    have hlength : m.splits.length = splits.length := by
      refine Nat.le_antisymm htells.length_le (Nat.le_of_not_lt fun hlt ↦ ?_)
      have hstops := htells.stops hlt
      rw [htaken _ hlt] at hstops
      exact Bool.false_ne_true hstops
    have hi : i < m.splits.length := hlength ▸ (List.getElem?_eq_some_iff.mp hsplit).1
    have hrecord : m.splits[i]? = some m.splits[i] := List.getElem?_eq_getElem hi
    obtain ⟨split', hsplit', hcompletes⟩ := completes_of_isComplete hrun hcomplete hrecord
    obtain rfl : split = split' := by rwa [hsplit, Option.some.injEq] at hsplit'
    exact ⟨m.splits[i], List.getElem_mem hi, hcompletes⟩

/-- A complete manifest tells of the splits that were taken up, and all of these were completed. It
tells of every split exactly where no stop was seen before a split was taken up, and then the disk
holds every record of the range of the plan. -/
theorem complete_covers_iff_takesUpAll
    (hrun : ((x.run available splits).run s).value = .ok m) (hcomplete : m.isComplete = true) :
    let disk := ((x.run available splits).run s).state.disk
    (∀ i record, m.splits[i]? = some record →
      ∃ split, splits[i]? = some split ∧ x.Completes disk i split record) ∧
    (x.CompletesAll disk splits m.splits ↔ x.TakesUpAll splits s) ∧
    (x.TakesUpAll splits s → ∀ l r, Plan.plan l r = .ok splits →
      r.available < Plan.greatestCount → x.HoldsRange disk splits r.skip r.extent) := by
  refine ⟨?_, completesAll_iff_takesUpAll hrun hcomplete, ?_⟩
  · intro i record hrecord
    exact completes_of_isComplete hrun hcomplete hrecord
  · intro htaken l r hplan ha
    exact ((completesAll_iff_takesUpAll hrun hcomplete).mpr htaken).holdsRange hplan ha

/-- A peer that numbers its answers. -/
def numbering : Peer Nat where
  send _ := Act.step fun n ↦ (.ok ⟨200, "OK", none, [n.toUInt8]⟩, n + 1)
  fetchToken := Act.step fun n ↦ (.ok "", n)

/-- An extraction that is stopped while a peer gives its answer of a number. -/
def stoppedIn (answer : Nat) : Extraction Nat where
  service :=
    { endpoints := ⟨⟨"http".toList, none, .segments [], none, none⟩,
        ⟨"User", none, none, none, none, []⟩⟩
      peer := numbering, credentials := .basic "" "", policy := .standard }
  outputDir := ""
  workers := 1
  watch := { isStopped := fun n ↦ answer ≤ n, now := fun _ ↦ default }

/-- A site on which nothing has been done. -/
def untouched : Site Nat := ⟨⟨0, none⟩, ⟨[], []⟩⟩

/-- A stop during the last page of the first of two splits leaves a complete manifest that tells of
one split only; without a stop the manifest tells of the whole plan. -/
theorem complete_covers_iff_takesUpAll_lastPage :
    (Plan.plan ⟨2, 4, 3, 3⟩ ⟨12, 9, 1, 0, 0⟩ = .ok [⟨2, 6, 4⟩, ⟨7, 10, 3⟩] ∧
      let r := ((stoppedIn 2).run 12 [⟨2, 6, 4⟩, ⟨7, 10, 3⟩]).run untouched
      ∃ m, r.value = .ok m ∧ m.isComplete = true ∧
        ¬ (stoppedIn 2).CompletesAll r.state.disk [⟨2, 6, 4⟩, ⟨7, 10, 3⟩] m.splits) ∧
    (Plan.plan ⟨2, 4, 3, 3⟩ ⟨12, 7, 1, 1, 0⟩ = .ok [⟨2, 8, 3⟩] ∧
      let r := ((stoppedIn 9).run 12 [⟨2, 8, 3⟩]).run untouched
      ∃ m, r.value = .ok m ∧ m.isComplete = true ∧
        (stoppedIn 9).CompletesAll r.state.disk [⟨2, 8, 3⟩] m.splits ∧
        (stoppedIn 9).HoldsRange r.state.disk [⟨2, 8, 3⟩] 1 7) := by
  constructor
  · refine ⟨by decide, ⟨"User", "http:", 12, [⟨0, 2, 6, 4, 2, 2, .completed⟩], default, default⟩,
      by decide +kernel, by decide, fun hall ↦ ?_⟩
    have htaken := (complete_covers_iff_takesUpAll (by decide +kernel) (by decide)).2.1.mp hall
    exact absurd (htaken 1 (by decide)) (by decide +kernel)
  · have hrun : (((stoppedIn 9).run 12 [⟨2, 8, 3⟩]).run untouched).value =
        .ok ⟨"User", "http:", 12, [⟨0, 2, 8, 3, 3, 3, .completed⟩], default, default⟩ := by
      decide +kernel
    have htaken : (stoppedIn 9).TakesUpAll [⟨2, 8, 3⟩] untouched := by
      intro i hi
      obtain rfl : i = 0 := Nat.lt_one_iff.mp hi
      decide +kernel
    obtain ⟨-, hall, hrange⟩ := complete_covers_iff_takesUpAll hrun (by decide)
    exact ⟨by decide, _, hrun, by decide, hall.mpr htaken,
      hrange htaken ⟨2, 4, 3, 3⟩ ⟨12, 7, 1, 1, 0⟩ (by decide) (by decide)⟩

end Harvest.Extraction

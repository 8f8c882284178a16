import Harvest.Proofs.Extraction.Pages

/-!
# Records tell what is on the disk

The record of a split counts the pages that lie on the disk, and says that the split was completed
exactly where these are all its pages. The records are those of the first splits, up to the first
one before which a look finds that the extraction is to stop.
-/

namespace Harvest.Extraction

open Disk (ChangesOnly)
open Manifest (Record)
open Plan (IsPageName Page Split pageFileName)

variable {σ : Type} {x : Extraction σ} {s : Site σ} {d e : Disk} {index : Nat} {split : Split}
  {record : Record} {page : Page} {pages : List Page} {claimed : List (Nat × Split)}

/-! ## What a record tells -/

/-- The files of the first pages of a split hold what the service granted for them. -/
structure Saved (x : Extraction σ) (disk : Disk) (index : Nat) (pages : List Page)
    (bodies : List Text.Bytes) : Prop where
  length_eq : bodies.length = pages.length
  held : ∀ n page body, pages[n]? = some page → bodies[n]? = some body →
    x.Grants page body ∧ disk.read (pagePath x.directory index n) = .ok body

/-- A record of a split that counts the pages of it that lie on the disk. -/
structure Counts (x : Extraction σ) (disk : Disk) (index : Nat) (split : Split)
    (record : Record) : Prop where
  index_eq : record.index = index
  first_eq : record.first = split.first
  last_eq : record.last = split.last
  batch_eq : record.batch = split.batch
  pages_le : record.pages ≤ split.pages.length
  saved : ∃ bodies, x.Saved disk index (split.pages.take record.pages) bodies ∧
    record.bytes = (bodies.map List.length).sum

/-- A record that says of a split that was taken up how far it came. -/
structure Concludes (x : Extraction σ) (disk : Disk) (index : Nat) (split : Split)
    (record : Record) : Prop extends Counts x disk index split record where
  completed_iff : record.outcome = .completed ↔ record.pages = split.pages.length

/-- Pages stay saved where their files are not touched. -/
theorem Saved.of_changesOnly {bodies : List Text.Bytes} {touched : String → Prop}
    (h : x.Saved d index pages bodies) (hchange : ChangesOnly x.directory touched d e)
    (hother : ∀ n < pages.length, ¬ touched (pageFileName index n)) :
    x.Saved e index pages bodies := by
  refine ⟨h.length_eq, fun n page body hpage hbody ↦ ?_⟩
  obtain ⟨hgrants, hread⟩ := h.held n page body hpage hbody
  have hn : n < pages.length := (List.getElem?_eq_some_iff.mp hpage).1
  exact ⟨hgrants, (hchange.read_iff (Plan.isPlain_pageFileName _ _) (hother n hn)).mpr hread⟩

/-- One more page is saved behind the others. -/
theorem Saved.concat {bodies : List Text.Bytes} {body : Text.Bytes}
    (h : x.Saved d index pages bodies) (hgrants : x.Grants page body)
    (hread : d.read (pagePath x.directory index pages.length) = .ok body) :
    x.Saved d index (pages ++ [page]) (bodies ++ [body]) := by
  refine ⟨by simp [h.length_eq], fun n p b hp hb ↦ ?_⟩
  by_cases hn : n < pages.length
  · rw [List.getElem?_append_left hn] at hp
    rw [List.getElem?_append_left (h.length_eq ▸ hn)] at hb
    exact h.held n p b hp hb
  · obtain ⟨hlt, -⟩ := List.getElem?_eq_some_iff.mp hp
    obtain rfl : n = pages.length := by
      rw [List.length_append, List.length_singleton] at hlt
      omega
    obtain rfl : page = p := by simpa using hp
    obtain rfl : body = b := by simpa [← h.length_eq] using hb
    exact ⟨hgrants, hread⟩

/-- A record goes on counting pages whose files are not touched. -/
theorem Counts.of_changesOnly {touched : String → Prop} (h : x.Counts d index split record)
    (hchange : ChangesOnly x.directory touched d e)
    (hother : ∀ n < record.pages, ¬ touched (pageFileName index n)) :
    x.Counts e index split record := by
  obtain ⟨bodies, hsaved, hbytes⟩ := h.saved
  refine { h with saved := ⟨bodies, hsaved.of_changesOnly hchange fun n hn ↦ hother n ?_, hbytes⟩ }
  rw [List.length_take] at hn
  omega

/-- What a record says stays true where the files of the split are not touched. -/
theorem Concludes.of_changesOnly {touched : String → Prop} (h : x.Concludes d index split record)
    (hchange : ChangesOnly x.directory touched d e)
    (hother : ∀ n, ¬ touched (pageFileName index n)) : x.Concludes e index split record :=
  ⟨h.toCounts.of_changesOnly hchange fun n _ ↦ hother n, h.completed_iff⟩

/-- A split that ends before its last page was not completed. -/
theorem Counts.ended {outcome : Manifest.Outcome} (h : x.Counts d index split record)
    (hlt : record.pages < split.pages.length) (houtcome : outcome ≠ .completed) :
    x.Concludes d index split { record with outcome } :=
  ⟨{ h with }, by simp [houtcome, Nat.ne_of_lt hlt]⟩

/-! ## Pages of one split -/

/-- A record of a split of which nothing has been fetched counts no page. -/
theorem counts_startRecord : x.Counts d index split (startRecord index split) where
  index_eq := rfl
  first_eq := rfl
  last_eq := rfl
  batch_eq := rfl
  pages_le := Nat.zero_le _
  saved := ⟨[], ⟨rfl, by simp [startRecord]⟩, rfl⟩

/-- Where a page is left, it is the one behind those that have been counted. -/
theorem take_succ_of_drop {n : Nat} (h : split.pages.drop n = page :: pages) :
    n < split.pages.length ∧ split.pages.take (n + 1) = split.pages.take n ++ [page] ∧
      split.pages.drop (n + 1) = pages := by
  have hlt : n < split.pages.length := by
    refine Nat.lt_of_not_le fun hle ↦ ?_
    rw [List.drop_eq_nil_of_le hle] at h
    exact List.cons_ne_nil _ _ h.symm
  have hpage : split.pages[n]? = some page := by rw [← List.head?_drop, h, List.head?_cons]
  refine ⟨hlt, ?_, ?_⟩
  · rw [List.take_add_one, hpage, Option.toList_some]
  · rw [← List.tail_drop, h, List.tail_cons]

/-- While the page behind them is saved, pages that have been counted stay as they are. -/
theorem Counts.of_savePage (h : x.Counts s.disk index split record) (page : Page) :
    x.Counts ((x.savePage record.index record.pages page).run s).state.disk index split record := by
  have htouched : ChangesOnly x.directory (IsPageName record.index record.pages) s.disk
      ((x.savePage record.index record.pages page).run s).state.disk := x.savePage_changesOnly s
  refine h.of_changesOnly htouched fun n hn hname ↦ ?_
  have := (Plan.isPageName_pageFileName.mp hname).2
  omega

/-- A page is counted where it has been granted and can be read from its file. -/
theorem Counts.concat_of_read {body : Text.Bytes} (h : x.Counts d index split record)
    (hdrop : split.pages.drop record.pages = page :: pages) (hgrants : x.Grants page body)
    (hread : d.read (pagePath x.directory index record.pages) = .ok body) :
    x.Counts d index split (countPage record body.length) := by
  obtain ⟨hlt, htake, -⟩ := take_succ_of_drop hdrop
  obtain ⟨bodies, hsaved, hbytes⟩ := h.saved
  have hlength : (split.pages.take record.pages).length = record.pages :=
    List.length_take_of_le h.pages_le
  refine ⟨h.index_eq, h.first_eq, h.last_eq, h.batch_eq, hlt, bodies ++ [body], ?_, ?_⟩
  · rw [countPage, htake]
    refine hsaved.concat hgrants ?_
    rw [hlength, hread]
  · simp [countPage, hbytes]

/-- A page that is saved is counted. -/
theorem Counts.concat {bytes : Nat} (h : x.Counts s.disk index split record)
    (hdrop : split.pages.drop record.pages = page :: pages)
    (hsave : ((x.savePage record.index record.pages page).run s).value = .ok bytes) :
    x.Counts ((x.savePage record.index record.pages page).run s).state.disk index split
      (countPage record bytes) := by
  obtain rfl := h.index_eq
  obtain ⟨body, hgrants, rfl, hread⟩ := savePage_ok hsave
  exact (h.of_savePage page).concat_of_read hdrop hgrants hread

/-- Fetching the rest of a split gives a record that says how far the split came, and touches files
of the split only. -/
theorem fetchPages_concludes (hcounts : x.Counts s.disk index split record)
    (hrunning : record.outcome = .completed) (hdrop : split.pages.drop record.pages = pages) :
    x.Concludes ((x.fetchPages record pages).run s).state.disk index split
        ((x.fetchPages record pages).run s).value ∧
      ChangesOnly x.directory (fun name ↦ ∃ n, IsPageName index n name) s.disk
        ((x.fetchPages record pages).run s).state.disk := by
  -- The invariant is that the record counts the pages on the disk, and that the others are left.
  induction pages generalizing record s with
  | nil =>
    obtain ⟨hvalue, hstate⟩ := x.fetchPages_nil record s
    rw [hvalue, hstate]
    have hall : record.pages = split.pages.length :=
      Nat.le_antisymm hcounts.pages_le (List.drop_eq_nil_iff.mp hdrop)
    exact ⟨⟨hcounts, by simp [hrunning, hall]⟩, .refl _⟩
  | cons page pages ih =>
    obtain ⟨hlt, -, hrest⟩ := take_succ_of_drop hdrop
    cases hstop : x.stops s with
    | true =>
      rw [fetchPages_of_stops hstop]
      exact ⟨hcounts.ended hlt (by simp), .refl _⟩
    | false =>
      have htouched : ChangesOnly x.directory (fun name ↦ ∃ n, IsPageName index n name) s.disk
          ((x.savePage record.index record.pages page).run (x.looked s)).state.disk := by
        refine (x.savePage_changesOnly (x.looked s)).mono fun name hname ↦ ⟨record.pages, ?_⟩
        exact hcounts.index_eq ▸ hname
      cases hsave : ((x.savePage record.index record.pages page).run (x.looked s)).value with
      | error e =>
        rw [fetchPages_of_error hstop hsave]
        have hkept : x.Counts (x.looked s).disk index split record := hcounts
        exact ⟨(hkept.of_savePage page).ended hlt (by simp), htouched⟩
      | ok bytes =>
        rw [fetchPages_of_ok hstop hsave]
        have hnext : x.Counts (x.looked s).disk index split record := hcounts
        obtain ⟨hconcludes, hchange⟩ := ih (hnext.concat hdrop hsave) hrunning hrest
        exact ⟨hconcludes, htouched.trans hchange⟩

end Harvest.Extraction

import Harvest.Proofs.Disk.Alike
import Harvest.Proofs.Extraction.Stops

/-!
# A stop while a page is in flight

A run that is stopped while a page is in flight is the run that heeds no stop, cut off behind that
page: it sends the same requests up to the last attempt for the page, and none afterwards; it writes
the same files of the pages up to it; and it has the same records of the splits before, and one of
the split of the page.
Design: `SPEC_FULL.md:146–148,269`.
-/

namespace Harvest.Extraction

open Disk (ChangesOnly)
open Manifest (Record)
open Plan (IsPageName Page Split)

variable {σ : Type} {x : Extraction σ} {s site : Site σ} {splits : List Split} {split : Split}
  {page : Page} {i n available : Nat}

/-- What comes before page `n` of split `i` in a run that heeds no stop: the splits before it. -/
def splitsBefore (x : Extraction σ) (splits : List Split) (s : Site σ) (i : Nat) :
    Act.Result (Site σ) (List Record) :=
  (x.heedless.fetchSplits ((Queue.ofList splits).waiting.take i)).run (x.prepared s)

/-- What comes before page `n` of split `i` in a run that heeds no stop: the pages of its own split
before it. -/
def pagesBefore (x : Extraction σ) (splits : List Split) (s : Site σ) (i n : Nat)
    (split : Split) : Act.Result (Site σ) Record :=
  (x.heedless.fetchPages (startRecord i split) (split.pages.take n)).run
    (x.looked (x.splitsBefore splits s i).state)

/-- A run starts, and where it heeds no stop it asks for page `n` of split `i` at a site, behind the
look before it. -/
structure InFlight (x : Extraction σ) (splits : List Split) (s : Site σ) (i n : Nat)
    (split : Split) (page : Page) (site : Site σ) : Prop where
  starts : x.Starts splits s
  split_eq : splits[i]? = some split
  page_eq : split.pages[n]? = some page
  /-- All pages before it in its split have been saved. -/
  saved : (x.pagesBefore splits s i n split).value.pages = n
  site_eq : site = x.looked (x.pagesBefore splits s i n split).state

/-- The effects of a run that heeds no stop before it asks for page `n` of split `i`. -/
def effectsBefore (x : Extraction σ) (splits : List Split) (s : Site σ) (i n : Nat)
    (split : Split) : List Event :=
  Event.effects (x.splitsBefore splits s i).trace ++
    Event.effects (x.pagesBefore splits s i n split).trace

/-- A stop is made while a page is in flight that is asked for at a site: it is not made when the
page is asked for, and the next look sees it. -/
structure StopsDuring (x : Extraction σ) (page : Page) (site : Site σ) : Prop where
  unset : x.isSet site = false
  seen : x.stops { site with world := ((x.service.fetchPage page).run site.world).state } = true

/-- Whether page `k` of split `j` is page `n` of split `i` or comes before it. -/
def UpTo (i n j k : Nat) : Prop := j < i ∨ j = i ∧ k ≤ n

instance (i n j k : Nat) : Decidable (UpTo i n j k) :=
  inferInstanceAs (Decidable (j < i ∨ j = i ∧ k ≤ n))

/-! ## Before the page -/

private theorem eq_take_append_drop {α : Type} {l : List α} {a : α} (h : l[n]? = some a) :
    l = l.take n ++ a :: l.drop (n + 1) := by
  obtain ⟨hlt, rfl⟩ := List.getElem?_eq_some_iff.mp h
  rw [← List.drop_eq_getElem_cons hlt, List.take_append_drop]

/-- Where the pages before a page of a split are all saved, it comes next. -/
theorem fetchSplit_parts (hpage : split.pages[n]? = some page)
    (h : ((x.fetchPages (startRecord i split) (split.pages.take n)).run s).value.pages = n) :
    let before := (x.fetchPages (startRecord i split) (split.pages.take n)).run s
    let behind := (x.fetchPages before.value (page :: split.pages.drop (n + 1))).run before.state
    let r := (x.fetchSplit i split).run s
    r.value = behind.value ∧ r.state = behind.state ∧
      Event.effects r.trace = Event.effects before.trace ++ Event.effects behind.trace := by
  have hlt := (List.getElem?_eq_some_iff.mp hpage).1
  have hall : ((x.fetchPages (startRecord i split) (split.pages.take n)).run s).value.pages =
      (startRecord i split).pages + (split.pages.take n).length := by
    rw [h, List.length_take_of_le (Nat.le_of_lt hlt)]
    exact (Nat.zero_add n).symm
  have hpages := fetchPages_append hall (page :: split.pages.drop (n + 1))
  rw [← eq_take_append_drop hpage] at hpages
  exact hpages

/-- The parts of what splits come to: the splits before a split, its pages before a page, the page
and those behind it, and the splits behind it. -/
theorem fetched_parts (hsplit : splits[i]? = some split) (hpage : split.pages[n]? = some page)
    {before : Act.Result (Site σ) (List Record)} {pages : Act.Result (Site σ) Record}
    (hbefore : (x.fetchSplits ((Queue.ofList splits).waiting.take i)).run (x.prepared s) = before)
    (hall : before.value.length = ((Queue.ofList splits).waiting.take i).length)
    (hstop : x.stops before.state = false)
    (hpages : (x.fetchPages (startRecord i split) (split.pages.take n)).run
      (x.looked before.state) = pages) (hsaved : pages.value.pages = n) :
    let own := (x.fetchPages pages.value (page :: split.pages.drop (n + 1))).run pages.state
    let later := (x.fetchSplits ((Queue.ofList splits).waiting.drop (i + 1))).run own.state
    let r := x.fetched splits s
    r.value = before.value ++ own.value :: later.value ∧ r.state = later.state ∧
      Event.effects r.trace = Event.effects before.trace ++ Event.effects pages.trace ++
        Event.effects own.trace ++ Event.effects later.trace := by
  subst hbefore hpages
  have hwaiting : (Queue.ofList splits).waiting[i]? = some (i, split) := by
    rw [Queue.getElem?_waiting_ofList, hsplit]
    rfl
  have hsplits := fetchSplits_append hall
    ((i, split) :: (Queue.ofList splits).waiting.drop (i + 1))
  rw [← eq_take_append_drop hwaiting] at hsplits
  simp only [fetchSplits_of_not_stops hstop] at hsplits
  obtain ⟨hvalue, hstate, heffects⟩ := fetchSplit_parts hpage hsaved
  rw [fetched, hsplits]
  simp only [hvalue, hstate, Event.effects_append, heffects, List.append_assoc, and_self]

namespace InFlight

/-- The page comes behind those that its record counts. -/
theorem index_eq (h : x.InFlight splits s i n split page site) :
    (x.pagesBefore splits s i n split).value.index = i ∧
      (x.pagesBefore splits s i n split).value.pages = n :=
  ⟨x.heedless.index_fetchPages _ _ _, h.saved⟩

/-- Until the stop is made, to heed it makes no difference. -/
theorem eq_before (h : x.InFlight splits s i n split page site) (hx : x.Latches)
    (hstop : x.StopsDuring page site) :
    (x.fetchSplits ((Queue.ofList splits).waiting.take i)).run (x.prepared s) =
        x.splitsBefore splits s i ∧
      x.stops (x.splitsBefore splits s i).state = false ∧
      (x.fetchPages (startRecord i split) (split.pages.take n)).run
          (x.looked (x.splitsBefore splits s i).state) = x.pagesBefore splits s i n split ∧
      x.stops (x.pagesBefore splits s i n split).state = false := by
  have hlast : x.isSet (x.looked (x.pagesBefore splits s i n split).state) = false :=
    h.site_eq ▸ hstop.unset
  have hpages : x.isSet (x.pagesBefore splits s i n split).state = false :=
    eq_false_of_imp hx.isSet_looked hlast
  have hfirst : x.isSet (x.looked (x.splitsBefore splits s i).state) = false :=
    eq_false_of_imp (hx.isSet_fetchPages _ _ _) hpages
  have hsplits : x.isSet (x.splitsBefore splits s i).state = false :=
    eq_false_of_imp hx.isSet_looked hfirst
  exact ⟨hx.fetchSplits_eq hsplits, hfirst, hx.fetchPages_eq hpages, hlast⟩

end InFlight

/-! ## The page and what comes behind it -/

/-- The splits behind a split touch no files of pages up to it. -/
theorem changesOnly_behind (x : Extraction σ) (splits : List Split) (s : Site σ) (i n : Nat) :
    ChangesOnly x.directory (fun name ↦ ∃ j k, ¬ UpTo i n j k ∧ IsPageName j k name) s.disk
      ((x.fetchSplits ((Queue.ofList splits).waiting.drop (i + 1))).run s).state.disk := by
  refine (fetchSplits_changesOnly s).mono ?_
  rintro name ⟨c, hc, k, hname⟩
  obtain ⟨m, hm⟩ := List.mem_iff_getElem?.mp hc
  rw [List.getElem?_drop, Queue.getElem?_waiting_ofList, Option.map_eq_some_iff] at hm
  obtain ⟨split, -, rfl⟩ := hm
  exact ⟨i + 1 + m, k, by unfold UpTo; omega, hname⟩

/-- The splits before a split touch files of pages before it only. -/
theorem changesOnly_before (x : Extraction σ) (splits : List Split) (s : Site σ) (i n : Nat) :
    ChangesOnly x.directory (fun name ↦ ∃ j k, UpTo i n j k ∧ IsPageName j k name)
      (x.prepared s).disk (x.splitsBefore splits s i).state.disk := by
  refine (fetchSplits_changesOnly (x := x.heedless) (x.prepared s)).mono ?_
  rintro name ⟨c, hc, k, hname⟩
  obtain ⟨m, hm⟩ := List.mem_iff_getElem?.mp hc
  rw [List.getElem?_take] at hm
  split at hm
  · next hlt =>
    rw [Queue.getElem?_waiting_ofList, Option.map_eq_some_iff] at hm
    obtain ⟨split, -, rfl⟩ := hm
    exact ⟨m, k, .inl hlt, hname⟩
  · simp at hm

namespace InFlight

/-- Up to the page, files of pages up to it are touched only. -/
theorem changesOnly_upTo (h : x.InFlight splits s i n split page site) :
    ChangesOnly x.directory (fun name ↦ ∃ j k, UpTo i n j k ∧ IsPageName j k name)
      (x.prepared s).disk ((x.savePage i n page).run site).state.disk := by
  have hpages : ChangesOnly x.directory (fun name ↦ ∃ j k, UpTo i n j k ∧ IsPageName j k name)
      (x.splitsBefore splits s i).state.disk (x.pagesBefore splits s i n split).state.disk := by
    have htouched := x.heedless.fetchPages_changesOnly (startRecord i split) (split.pages.take n)
      (x.looked (x.splitsBefore splits s i).state)
    refine htouched.mono ?_
    rintro name ⟨k, -, hlt, hname⟩
    have hlength := List.length_take_le n split.pages
    exact ⟨i, k, .inr ⟨rfl, by simp only [startRecord] at hlt; omega⟩, hname⟩
  have hpage : ChangesOnly x.directory (fun name ↦ ∃ j k, UpTo i n j k ∧ IsPageName j k name)
      (x.pagesBefore splits s i n split).state.disk
      ((x.savePage i n page).run site).state.disk := by
    have htouched : ChangesOnly x.directory (IsPageName i n)
        (x.looked (x.pagesBefore splits s i n split).state).disk
        ((x.savePage i n page).run site).state.disk :=
      h.site_eq ▸ x.savePage_changesOnly _
    exact htouched.mono fun name hname ↦ ⟨i, n, .inr ⟨rfl, Nat.le_refl _⟩, hname⟩
  exact ((x.changesOnly_before splits s i n).trans hpages).trans hpage

/-- What the splits come to where the stop is heeded. -/
theorem fetched_eq (h : x.InFlight splits s i n split page site) (hx : x.Latches)
    (hstop : x.StopsDuring page site) :
    let saved := (x.savePage i n page).run site
    let r := x.fetched splits s
    r.value = (x.splitsBefore splits s i).value ++
        [cutRecord (x.pagesBefore splits s i n split).value (split.pages.drop (n + 1))
          saved.value] ∧
      Event.effects r.trace = x.effectsBefore splits s i n split ++
        Event.effects ((x.service.fetchPage page).run site.world).trace ∧
      r.state.disk = saved.state.disk := by
  obtain ⟨hsplits, hfirst, hpages, hlast⟩ := h.eq_before hx hstop
  obtain ⟨hindex, hcount⟩ := h.index_eq
  obtain ⟨hworld, htrace⟩ := x.run_savePage_world i n page site
  have hset : x.stops ((x.savePage i n page).run site).state = true := by
    rw [← hstop.seen, stops, stops, hworld]
  obtain ⟨hvalue, hstate, heffects⟩ := fetched_parts h.split_eq h.page_eq hsplits
    (x.length_fetchSplits_heedless _ _) hfirst hpages hcount
  have hbehind : x.stops ((x.savePage (x.pagesBefore splits s i n split).value.index
      (x.pagesBefore splits s i n split).value.pages page).run
      (x.looked (x.pagesBefore splits s i n split).state)).state = true := by
    rwa [hindex, hcount, ← h.site_eq]
  have hcut := fetchPages_of_stop_behind hx hlast hbehind (split.pages.drop (n + 1))
  rw [hindex, hcount, ← h.site_eq] at hcut
  obtain ⟨hown, hpage, hdisk, hstops⟩ := hcut
  -- The stop is seen before the next split at the latest.
  obtain ⟨hnone, hsilent, hkept⟩ := fetchSplits_of_set hstops
    ((Queue.ofList splits).waiting.drop (i + 1))
  refine ⟨?_, ?_, ?_⟩
  · rw [hvalue, hnone, hown]
  · rw [heffects, hsilent, hpage, htrace, effectsBefore]
    exact List.append_nil _
  · rw [hstate, hkept, hdisk]

/-- What the splits come to where no stop is heeded. -/
theorem fetched_heedless (h : x.InFlight splits s i n split page site) :
    let saved := (x.savePage i n page).run site
    let r := x.heedless.fetched splits s
    ∃ record later, r.value = (x.splitsBefore splits s i).value ++ record :: later ∧
      ((n + 1 = split.pages.length ∨ ∃ e, saved.value = .error e) →
        record = cutRecord (x.pagesBefore splits s i n split).value (split.pages.drop (n + 1))
          saved.value) ∧
      (∃ behind, Event.effects r.trace = x.effectsBefore splits s i n split ++
        Event.effects ((x.service.fetchPage page).run site.world).trace ++ behind) ∧
      ChangesOnly x.directory (fun name ↦ ∃ j k, ¬ UpTo i n j k ∧ IsPageName j k name)
        saved.state.disk r.state.disk := by
  obtain ⟨hindex, hcount⟩ := h.index_eq
  obtain ⟨hworld, htrace⟩ := x.run_savePage_world i n page site
  have hbefore : (x.heedless.fetchSplits ((Queue.ofList splits).waiting.take i)).run
      (x.heedless.prepared s) = x.splitsBefore splits s i := rfl
  have hpages : (x.heedless.fetchPages (startRecord i split) (split.pages.take n)).run
      (x.heedless.looked (x.splitsBefore splits s i).state) =
        x.pagesBefore splits s i n split := rfl
  obtain ⟨hvalue, hstate, heffects⟩ := fetched_parts h.split_eq h.page_eq hbefore
    (x.length_fetchSplits_heedless _ _) (stops_heedless x _) hpages hcount
  have howns := x.fetchPages_heedless (x.pagesBefore splits s i n split).value page
    (split.pages.drop (n + 1)) (x.pagesBefore splits s i n split).state
  rw [hindex, hcount, ← h.site_eq] at howns
  obtain ⟨hown, ⟨behind, hbehind⟩, hchange⟩ := howns
  refine ⟨_, _, hvalue, fun hends ↦ hown ?_, ?_, ?_⟩
  · exact hends.imp_left fun hlast ↦ List.drop_eq_nil_of_le (Nat.le_of_eq hlast.symm)
  · simp only [heffects, hbehind, htrace, effectsBefore, List.append_assoc]
    exact ⟨_, rfl⟩
  · rw [hstate]
    refine (hchange.mono ?_).trans (x.heedless.changesOnly_behind splits _ i n)
    rintro name ⟨k, hlt, hname⟩
    exact ⟨i, k, by unfold UpTo; omega, hname⟩

end InFlight

/-! ## Whole runs -/

/-- A run starts whether it heeds a stop or not. -/
theorem Starts.heedless (h : x.Starts splits s) : x.heedless.Starts splits s :=
  ⟨h.prepares, h.builds⟩

/-- Beside reports, a run that starts leaves what its splits leave. -/
theorem effects_run (h : x.Starts splits s) :
    Event.effects ((x.run available splits).run s).trace =
      Event.effects (x.fetched splits s).trace := by
  rw [run_of_prepared h.prepares]
  exact effects_extract h.builds available (x.prepared s)

/-- Behind its splits a run that starts touches its manifest only. -/
theorem run_changesOnly (h : x.Starts splits s) (available : Nat) :
    ChangesOnly x.directory (· = Manifest.fileName) (x.fetched splits s).state.disk
      ((x.run available splits).run s).state.disk := by
  rw [run_of_prepared h.prepares, (run_extract h.builds available s).2]
  exact conclude_changesOnly x _ _

/-- A run that is stopped while page `n` of split `i` is in flight, compared with the same run
heeding no stop. -/
structure CutsOff (x : Extraction σ) (available : Nat) (splits : List Split) (s : Site σ)
    (i n : Nat) (split : Split) (page : Page) (site : Site σ) : Prop where
  /-- The last thing that it does is to ask for the page, with all attempts. -/
  effects_eq : Event.effects ((x.run available splits).run s).trace =
    x.effectsBefore splits s i n split ++
      Event.effects ((x.service.fetchPage page).run site.world).trace
  asks : ∀ kept request outcome, .sent kept request outcome ∈ Try.moments x ⟨page, site.world⟩ →
    request.url = pageUrl x page
  /-- Up to there the other run does the same. -/
  effects_prefix : ∃ behind, Event.effects ((x.heedless.run available splits).run s).trace =
    Event.effects ((x.run available splits).run s).trace ++ behind
  /-- It writes files of pages up to the page. -/
  touched : ChangesOnly x.directory
    (fun name ↦ name = Manifest.fileName ∨ ∃ j k, UpTo i n j k ∧ IsPageName j k name)
    (x.prepared s).disk ((x.run available splits).run s).state.disk
  /-- What the other run writes behind them are files of later pages. -/
  missed : ChangesOnly x.directory
    (fun name ↦ name = Manifest.fileName ∨ ∃ j k, ¬ UpTo i n j k ∧ IsPageName j k name)
    ((x.run available splits).run s).state.disk
    ((x.heedless.run available splits).run s).state.disk
  /-- So both have the files of the pages up to the page, and it has no others. -/
  read_iff : ∀ j k body,
    ((x.run available splits).run s).state.disk.read (pagePath x.directory j k) = .ok body ↔
      if UpTo i n j k then ((x.heedless.run available splits).run s).state.disk.read
        (pagePath x.directory j k) = .ok body
      else (x.prepared s).disk.read (pagePath x.directory j k) = .ok body
  /-- The other run has a record of every split. -/
  length_eq : (x.heedless.manifest available splits s).splits.length = splits.length
  /-- It has the same records of the splits before, and one of the split of the page. -/
  records : ∃ record, (x.manifest available splits s).splits =
      (x.heedless.manifest available splits s).splits.take i ++ [record] ∧
    (n + 1 = split.pages.length ∨ (∃ e, ((x.savePage i n page).run site).value = .error e) →
      (x.heedless.manifest available splits s).splits[i]? = some record) ∧
    (n + 1 < split.pages.length → (∃ bytes, ((x.savePage i n page).run site).value = .ok bytes) →
      record.outcome = .interrupted ∧ record.pages = n + 1 ∧
        x.Counts ((x.run available splits).run s).state.disk i split record)
  given : ∀ m, ((x.run available splits).run s).value = .ok m → m = x.manifest available splits s

namespace InFlight

/-- There is one record of every split before the split of the page. -/
theorem length_splitsBefore (h : x.InFlight splits s i n split page site) :
    (x.splitsBefore splits s i).value.length = i := by
  have hlt := (List.getElem?_eq_some_iff.mp h.split_eq).1
  have hlength : (x.splitsBefore splits s i).value.length =
      ((Queue.ofList splits).waiting.take i).length := x.length_fetchSplits_heedless _ _
  rw [hlength, List.length_take_of_le]
  rw [Queue.length_waiting_ofList]
  omega

private theorem touched (h : x.InFlight splits s i n split page site) (hx : x.Latches)
    (hstop : x.StopsDuring page site) (available : Nat) : ChangesOnly x.directory
      (fun name ↦ name = Manifest.fileName ∨ ∃ j k, UpTo i n j k ∧ IsPageName j k name)
      (x.prepared s).disk ((x.run available splits).run s).state.disk := by
  have hpages := h.changesOnly_upTo
  rw [← (h.fetched_eq hx hstop).2.2] at hpages
  have hmanifest := run_changesOnly h.starts available
  exact (hpages.mono fun _ ↦ .inr).trans (hmanifest.mono fun _ ↦ .inl)

private theorem missed (h : x.InFlight splits s i n split page site) (hx : x.Latches)
    (hstop : x.StopsDuring page site) (available : Nat) : ChangesOnly x.directory
      (fun name ↦ name = Manifest.fileName ∨ ∃ j k, ¬ UpTo i n j k ∧ IsPageName j k name)
      ((x.run available splits).run s).state.disk
      ((x.heedless.run available splits).run s).state.disk := by
  obtain ⟨_, _, -, -, -, hpages⟩ := h.fetched_heedless
  rw [← (h.fetched_eq hx hstop).2.2] at hpages
  have hstopped := (run_changesOnly h.starts available).symm
  have hheedless := run_changesOnly h.starts.heedless available
  exact ((hstopped.mono fun _ ↦ .inl).trans (hpages.mono fun _ ↦ .inr)).trans
    (hheedless.mono fun _ ↦ .inl)

/-- The records up to the split of the page are those of the run that heeds no stop, but for the
record of that split itself, which may tell of the interruption. -/
theorem records (h : x.InFlight splits s i n split page site) (hx : x.Latches)
    (hstop : x.StopsDuring page site) (available : Nat) :
    ∃ record, (x.manifest available splits s).splits =
        (x.heedless.manifest available splits s).splits.take i ++ [record] ∧
      (n + 1 = split.pages.length ∨ (∃ e, ((x.savePage i n page).run site).value = .error e) →
        (x.heedless.manifest available splits s).splits[i]? = some record) ∧
      (n + 1 < split.pages.length → (∃ bytes, ((x.savePage i n page).run site).value = .ok bytes) →
        record.outcome = .interrupted ∧ record.pages = n + 1 ∧
          x.Counts ((x.run available splits).run s).state.disk i split record) := by
  obtain ⟨hvalue, -, -⟩ := h.fetched_eq hx hstop
  obtain ⟨record, later, hvalue', hsame, -, -⟩ := h.fetched_heedless
  have hlength := h.length_splitsBefore
  rw [manifest_splits, manifest_splits, hvalue']
  refine ⟨cutRecord (x.pagesBefore splits s i n split).value (split.pages.drop (n + 1))
    ((x.savePage i n page).run site).value, ?_, fun hends ↦ ?_, fun hlt hsaved ↦ ?_⟩
  · rw [List.take_append_of_le_length (Nat.le_of_eq hlength.symm),
      List.take_of_length_le (Nat.le_of_eq hlength), hvalue]
  · rw [List.getElem?_append_right (Nat.le_of_eq hlength), hlength, Nat.sub_self, hsame hends]
    rfl
  · have hrecord : (x.fetched splits s).value[i]? = some (cutRecord
        (x.pagesBefore splits s i n split).value (split.pages.drop (n + 1))
        ((x.savePage i n page).run site).value) := by
      rw [hvalue, List.getElem?_append_right (Nat.le_of_eq hlength), hlength, Nat.sub_self]
      rfl
    obtain ⟨split', hsplit', hconcludes⟩ := concludes_fetched hrecord
    obtain rfl : split = split' := Option.some.inj (h.split_eq.symm.trans hsplit')
    have hcounts := hconcludes.toCounts.of_changesOnly
      (run_changesOnly h.starts available) fun n _ hname ↦
        Plan.not_isPageName_manifest (.inl hname.symm)
    obtain ⟨bytes, hsaved⟩ := hsaved
    have hleft : split.pages.drop (n + 1) ≠ [] := by simpa using hlt
    rw [hsaved] at hcounts ⊢
    simp only [cutRecord, if_neg hleft] at hcounts ⊢
    refine ⟨trivial, ?_, hcounts⟩
    simp [countPage, h.saved]

end InFlight

/-- A run that is stopped while a page is in flight is the run that heeds no stop, cut off behind
the page. -/
theorem cutsOff_of_stopsDuring (hx : x.Latches) (h : x.InFlight splits s i n split page site)
    (hstop : x.StopsDuring page site) (available : Nat) :
    CutsOff x available splits s i n split page site := by
  obtain ⟨-, heffects, -⟩ := h.fetched_eq hx hstop
  obtain ⟨record, later, hvalue, -, ⟨behind, hbehind⟩, -⟩ := h.fetched_heedless
  have htouched := h.touched hx hstop available
  have hmissed := h.missed hx hstop available
  refine ⟨?_, (Try.moments_spec x ⟨page, site.world⟩).1, ⟨behind, ?_⟩, htouched, hmissed, ?_, ?_,
    h.records hx hstop available, fun m hm ↦ (run_ok hm).2.1⟩
  · rw [effects_run h.starts, heffects]
  · rw [effects_run h.starts, effects_run h.starts.heedless, heffects, hbehind]
  · intro j k body
    have hplain := Plan.isPlain_pageFileName j k
    by_cases hup : UpTo i n j k
    · rw [if_pos hup]
      refine (hmissed.read_iff hplain ?_).symm
      rintro (hname | ⟨j', k', hnot, hname⟩)
      · exact Plan.not_isPageName_manifest (.inl hname.symm)
      · obtain ⟨rfl, rfl⟩ := Plan.isPageName_pageFileName.mp hname
        exact hnot hup
    · rw [if_neg hup]
      refine htouched.read_iff hplain ?_
      rintro (hname | ⟨j', k', hup', hname⟩)
      · exact Plan.not_isPageName_manifest (.inl hname.symm)
      · obtain ⟨rfl, rfl⟩ := Plan.isPageName_pageFileName.mp hname
        exact hup hup'
  · rw [manifest_splits, fetched, length_fetchSplits_heedless, Queue.length_waiting_ofList]

/-- An extraction from a peer that answers with the statuses of a list, stopped while three of them
are left. -/
def stoppedAtThree : Extraction (List Nat) :=
  { unstopped with
    watch := { isStopped := fun statuses ↦ statuses.length ≤ 3, now := fun _ ↦ default } }

/-- The second page is asked for once more when the stop has been made; the third one and the split
behind it are left out. -/
theorem cutsOff_of_stopsDuring_secondPage :
    let splits : List Split := [⟨1, 3, 1⟩, ⟨4, 4, 1⟩]
    let s := expecting [200, 503, 200, 200, 200]
    let site := stoppedAtThree.looked (stoppedAtThree.pagesBefore splits s 0 1 ⟨1, 3, 1⟩).state
    (stoppedAtThree.manifest 4 splits s).splits = [⟨0, 1, 3, 1, 2, 2, .interrupted⟩] ∧
    (stoppedAtThree.heedless.manifest 4 splits s).splits =
      [⟨0, 1, 3, 1, 3, 3, .completed⟩, ⟨1, 4, 4, 1, 1, 1, .completed⟩] ∧
    CutsOff stoppedAtThree 4 splits s 0 1 ⟨1, 3, 1⟩ ⟨1, 1⟩ site := by
  refine ⟨by decide +kernel, by rw [manifest_splits]; decide +kernel, ?_⟩
  have hpeer : stoppedAtThree.service.peer.Keeps
      fun statuses ↦ stoppedAtThree.watch.isStopped statuses = true := by
    refine ⟨fun request statuses h ↦ ?_, fun statuses h ↦ h⟩
    have hlength : statuses.length ≤ 3 := of_decide_eq_true h
    have htail : statuses.tail.length ≤ 3 := by
      rw [List.length_tail]
      omega
    exact decide_eq_true htail
  exact cutsOff_of_stopsDuring (latches_of_keeps (fun _ h ↦ h) hpeer)
    ⟨⟨by decide +kernel, rfl⟩, rfl, by decide, by decide +kernel, rfl⟩
    ⟨by decide +kernel, by decide +kernel⟩ 4

end Harvest.Extraction

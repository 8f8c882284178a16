import Harvest.Proofs.Extraction.Completeness
import Harvest.Proofs.Extraction.Requests
import Harvest.Proofs.Extraction.Steady

/-!
# The order of splits does not count

In a steady extraction a split comes to what it would come to alone, whatever happens to the others
meanwhile. So in whatever order splits are taken up, and however workers take turns at them, they
leave the same records and the same files.
Design: `SPEC_FULL.md:141`.
-/

namespace Harvest.Extraction

open Disk (Alike ChangesOnly)
open Manifest (Record)
open Plan (IsPageName Page Split)

variable {σ : Type} {x : Extraction σ} {s t site : Site σ} {p q : Pool σ} {splits : List Split}
  {turns : List (Turn σ)} {turn : Turn σ} {d e : Disk} {i index workers available : Nat}
  {split : Split} {job job' : Job} {records records' : List Record} {named : String → Prop}
  {claimed : List (Nat × Split)} {happened : Trail σ}
  {answer : Url → Service.Answer Http.Response}

/-- Whether a name is one of a page of split `i`. -/
def IsSplitName (i : Nat) (name : String) : Prop := ∃ n, IsPageName i n name

private theorem IsSplitName.unique {j : Nat} {name : String} (h : IsSplitName i name)
    (k : IsSplitName j name) : i = j := by
  obtain ⟨n, hn⟩ := h
  obtain ⟨m, hm⟩ := k
  exact (hn.unique hm).1

/-! ## What splits come to -/

/-- What splits come to in any order: each has the record and the files that it would have alone,
and nothing else has changed. -/
structure Settles (x : Extraction σ) (splits : List Split) (s : Site σ) (records : List Record)
    (disk : Disk) : Prop where
  records_perm : records.Perm
    (splits.zipIdx.map fun a ↦ ((x.fetchSplit a.2 a.1).run s).value)
  alike : ∀ i split, splits[i]? = some split →
    Alike x.directory (IsSplitName i) ((x.fetchSplit i split).run s).state.disk disk
  untouched : ∀ i, splits.length ≤ i → Alike x.directory (IsSplitName i) s.disk disk
  changes : ChangesOnly x.directory (fun name ↦ ∃ i, IsSplitName i name) s.disk disk

/-- The records that splits have alone follow on each other. -/
theorem pairwise_index_alone (x : Extraction σ) (splits : List Split) (s : Site σ) :
    (splits.zipIdx.map fun a ↦ ((x.fetchSplit a.2 a.1).run s).value).Pairwise
      (·.index < ·.index) := by
  rw [List.pairwise_iff_getElem]
  intro i j hi hj hij
  simp only [List.getElem_map, List.getElem_zipIdx]
  rw [(x.fetchSplit_concludes _ _ s).1.index_eq, (x.fetchSplit_concludes _ _ s).1.index_eq]
  omega

/-- What splits come to is the same in any two orders. -/
theorem Settles.unique (h : Settles x splits s records d) (k : Settles x splits s records' e) :
    inOrder records' = inOrder records ∧ ∀ place, e.find? place = d.find? place := by
  have hsorted := pairwise_index_alone x splits s
  refine ⟨?_, fun place ↦ ?_⟩
  · rw [inOrder_of_perm h.records_perm hsorted, inOrder_of_perm k.records_perm hsorted]
  · have halike (i : Nat) : Alike x.directory (IsSplitName i) d e := by
      cases hsplit : splits[i]? with
      | none =>
        have hi := List.getElem?_eq_none_iff.mp hsplit
        exact (h.untouched i hi).symm.trans (k.untouched i hi)
      | some split => exact (h.alike i split hsplit).symm.trans (k.alike i split hsplit)
    exact (Alike.of_forall halike).find?_eq_of_changesOnly h.changes k.changes place

/-! ## Splits one after another -/

/-- Splits that are fetched keep the files of the others. -/
theorem fetchSplits_alike (h : i ∉ claimed.map (·.1)) : Alike x.directory (IsSplitName i) s.disk
    ((x.fetchSplits claimed).run s).state.disk := by
  refine (fetchSplits_changesOnly s).alike ?_
  rintro name hname ⟨c, hc, hother⟩
  exact h (hname.unique hother ▸ List.mem_map_of_mem hc)

/-- Splits that are fetched one after another come to what each of them comes to alone. -/
theorem fetchSplits_alone (hx : x.IsSteady answer) (hnodup : (claimed.map (·.1)).Nodup)
    (h : ∀ c ∈ claimed, Alike x.directory (IsSplitName c.1) s.disk t.disk) :
    let r := (x.fetchSplits claimed).run t
    r.value = (claimed.map fun c ↦ ((x.fetchSplit c.1 c.2).run s).value) ∧
      ∀ c ∈ claimed, Alike x.directory (IsSplitName c.1)
        ((x.fetchSplit c.1 c.2).run s).state.disk r.state.disk := by
  induction claimed generalizing t with
  | nil => exact ⟨rfl, by simp⟩
  | cons c claimed ih =>
    rw [List.map_cons, List.nodup_cons] at hnodup
    rw [fetchSplits_of_not_stops (hx.stops_eq t)]
    have hlooked : Alike x.directory (IsSplitName c.1) s.disk (x.looked t).disk :=
      h c List.mem_cons_self
    obtain ⟨hvalue, hdisk⟩ := hx.isLocal_fetchSplit c.1 c.2 s (x.looked t) hlooked
    have hothers : ∀ other ∈ claimed, Alike x.directory (IsSplitName other.1) s.disk
        ((x.fetchSplit c.1 c.2).run (x.looked t)).state.disk := by
      intro other hother
      refine (h other (List.mem_cons_of_mem _ hother)).trans ?_
      refine (x.fetchSplit_concludes c.1 c.2 (x.looked t)).2.alike fun name hname hself ↦ ?_
      exact hnodup.1 (hname.unique hself ▸ List.mem_map_of_mem hother)
    obtain ⟨hvalues, hdisks⟩ := ih hnodup.2 hothers
    refine ⟨?_, fun other hother ↦ ?_⟩
    · exact congrArg₂ List.cons hvalue hvalues
    · obtain rfl | hother := List.mem_cons.mp hother
      · exact hdisk.trans (fetchSplits_alike hnodup.1)
      · exact hdisks other hother

/-- Splits that are taken up in any order settle. -/
theorem fetchSplits_settles (hx : x.IsSteady answer)
    (hperm : claimed.Perm (Queue.ofList splits).waiting) (s : Site σ) :
    Settles x splits s ((x.fetchSplits claimed).run s).value
      ((x.fetchSplits claimed).run s).state.disk := by
  have hnodup : (claimed.map (·.1)).Nodup :=
    (hperm.map _).nodup_iff.mpr (Queue.nodup_waiting_ofList splits)
  obtain ⟨hvalue, hdisk⟩ := fetchSplits_alone hx hnodup (s := s) (t := s) fun _ _ ↦ .refl _
  refine ⟨?_, fun i split hsplit ↦ ?_, fun i hi ↦ fetchSplits_alike fun hmem ↦ ?_, ?_⟩
  · rw [hvalue]
    refine (hperm.map _).trans (List.Perm.of_eq ?_)
    rw [Queue.waiting_ofList, List.map_map]
    rfl
  · refine hdisk (i, split) (hperm.mem_iff.mpr (List.mem_of_getElem? (i := i) ?_))
    rw [Queue.getElem?_waiting_ofList, hsplit]
    rfl
  · obtain ⟨c, hc, rfl⟩ := List.mem_map.mp hmem
    obtain ⟨j, hj⟩ := List.mem_iff_getElem?.mp (hperm.mem_iff.mp hc)
    rw [Queue.getElem?_waiting_ofList, Option.map_eq_some_iff] at hj
    obtain ⟨split, hsplit, rfl⟩ := hj
    have hlt := (List.getElem?_eq_some_iff.mp hsplit).1
    exact absurd hlt (Nat.not_lt.mpr hi)
  · refine (fetchSplits_changesOnly s).mono ?_
    rintro name ⟨c, -, hname⟩
    exact ⟨c.1, hname⟩

/-! ## Splits that workers share -/

/-- What is left to do for split `i`, up to its record. -/
def Job.rest (x : Extraction σ) (i : Nat) : Job → Act (Site σ) (Option Record)
  | .held split => do return some (← x.fetchSplit i split)
  | .passed => return none
  | .between record pages => do return some (← x.fetchPages record pages)
  | .asking record page pages => do
    match ← x.savePage i record.pages page with
    | .error e => return some { record with outcome := .failed e.message }
    | .ok bytes => return some (← x.fetchPages (countPage record bytes) pages)
  | .writing record pages body => do
    match ← writePage x.directory i record.pages body with
    | .error e => return some { record with outcome := .failed e.message }
    | .ok () => return some (← x.fetchPages (countPage record body.length) pages)
  | .ended record => return some record

/-- What is left to do for a split depends on no files of others. -/
theorem isLocal_rest (hx : x.IsSteady answer) (i : Nat) (job : Job) :
    IsLocal x.directory named (job.rest x i) := by
  cases job with
  | held split => exact (hx.isLocal_fetchSplit _ _).bind fun _ ↦ isLocal_pure _
  | passed | ended record => exact isLocal_pure _
  | between record pages => exact (hx.isLocal_fetchPages _ _).bind fun _ ↦ isLocal_pure _
  | asking record page pages =>
    refine (hx.isLocal_savePage _ _ _).bind fun saved ↦ ?_
    cases saved with
    | error e => exact isLocal_pure _
    | ok bytes => exact (hx.isLocal_fetchPages _ _).bind fun _ ↦ isLocal_pure _
  | writing record pages body =>
    refine (isLocal_writePage _ _ _ _).bind fun written ↦ ?_
    cases written with
    | error e => exact isLocal_pure _
    | ok => exact (hx.isLocal_fetchPages _ _).bind fun _ ↦ isLocal_pure _

/-- What a worker does to its split is part of what was left to do. -/
theorem Advances.rest_sameFor (hx : x.IsSteady answer)
    (hadvances : Advances x s i job turn job' site) (h : Agrees x s.disk i split happened job) :
    SameFor x.directory named ((job.rest x i).run s) ((job'.rest x i).run site) := by
  cases hadvances with
  | pass hstop | interrupt hstop =>
    rw [hx.stops_eq] at hstop
    contradiction
  | @begin split hstop =>
    -- All that differs is the look before the split.
    obtain ⟨hvalue, halike⟩ := isLocal_rest hx i (.between (startRecord i split) split.pages)
      s (x.looked s) (.refl _)
    exact ⟨hvalue, halike⟩
  | @ask record page pages hstop =>
    cases h with
    | between haccounts =>
      obtain rfl := haccounts.index_eq
      simp only [Job.rest, Act.run_bind]
      cases hsave : ((x.savePage record.index record.pages page).run (x.looked s)).value with
      | error e =>
        rw [fetchPages_of_error hstop hsave]
        exact ⟨rfl, .refl _⟩
      | ok bytes =>
        rw [fetchPages_of_ok hstop hsave]
        exact ⟨rfl, .refl _⟩
  | refuse hanswer =>
    simp only [Job.rest, Act.run_bind, run_savePage_of_error hanswer]
    exact ⟨rfl, .refl _⟩
  | @grant record page pages response hanswer =>
    simp only [Job.rest, Act.run_bind, run_savePage_of_ok hanswer]
    cases ((writePage x.directory i record.pages response.body).run
        { s with world := ((x.service.fetchPage page).run s.world).state }).value with
    | error e => exact ⟨rfl, .refl _⟩
    | ok => exact ⟨rfl, .refl _⟩
  | spoil hwrite =>
    simp only [Job.rest, Act.run_bind, Act.run_pure, hwrite]
    exact ⟨rfl, .refl _⟩
  | save hwrite =>
    simp only [Job.rest, Act.run_bind, Act.run_pure, hwrite]
    exact ⟨rfl, .refl _⟩
  | finish => exact ⟨rfl, .refl _⟩

/-- What holds of a pool of a steady extraction that has started from a site: what has been done and
what is left come to the same for every split as if it were alone. -/
structure Pool.GoesAlone (x : Extraction σ) (splits : List Split) (s : Site σ) (p : Pool σ) :
    Prop where
  claimed : ∀ i job, p.jobs[i]? = some job → ∃ split, splits[i]? = some split ∧
    SameFor x.directory (IsSplitName i) (((Job.held split).rest x i).run s)
      ((job.rest x i).run p.site)
  unclaimed : ∀ i, p.jobs.length ≤ i → Alike x.directory (IsSplitName i) s.disk p.site.disk
  changes : ChangesOnly x.directory (fun name ↦ ∃ i, IsSplitName i name) s.disk p.site.disk

private theorem goesAlone_start (s : Site σ) (splits : List Split) (workers : Nat) :
    (Pool.start s splits workers).GoesAlone x splits s where
  claimed := by simp [Pool.start]
  unclaimed := fun _ _ ↦ .refl _
  changes := .refl _

/-- A split that is claimed has its files as they were. -/
theorem Pool.GoesAlone.claim (hx : x.IsSteady answer) (h : p.GoesAlone x splits s)
    (hsound : Sound x splits turns p) (hclaim : p.queue.next.1 = some (index, split)) :
    p.claim.GoesAlone x splits s := by
  obtain ⟨hindex, -, hsplit⟩ := hsound.next_eq_some hclaim
  rw [Pool.claim_of_some hclaim]
  refine ⟨fun i job hjob ↦ ?_, fun i hi ↦ h.unclaimed i ?_, h.changes⟩
  · obtain hi | rfl | hi := Nat.lt_trichotomy i index
    · rw [List.getElem?_append_left (by omega)] at hjob
      exact h.claimed i job hjob
    · rw [← hindex, List.getElem?_concat_length, Option.some.injEq] at hjob
      subst hjob
      exact ⟨split, hsplit, isLocal_rest hx i _ s p.site (h.unclaimed i (by omega))⟩
    · rw [List.getElem?_eq_none (by simp; omega)] at hjob
      simp at hjob
  · rw [List.length_append] at hi
    omega

/-- A worker does part of what is left to do for its split, and keeps the files of the others. -/
theorem Pool.GoesAlone.advance (hx : x.IsSteady answer) (h : p.GoesAlone x splits s)
    (hsound : Sound x splits turns p) (hjob : p.jobs[i]? = some job)
    (hadvances : Advances x p.site i job turn job' site) :
    (p.put i job' site).GoesAlone x splits s := by
  obtain ⟨hlt, -⟩ := List.getElem?_eq_some_iff.mp hjob
  have hothers : ∀ j ≠ i, Alike x.directory (IsSplitName j) p.site.disk site.disk := by
    intro j hj
    exact hadvances.changesOnly.alike fun name hname hself ↦ hj (hname.unique hself)
  refine ⟨fun j other hother ↦ ?_, fun j hj ↦ ?_, h.changes.trans ?_⟩
  · simp only [Pool.put] at hother
    by_cases hself : j = i
    · subst hself
      rw [List.getElem?_set_self hlt, Option.some.injEq] at hother
      subst hother
      obtain ⟨split, hsplit, hsame⟩ := h.claimed j job hjob
      obtain ⟨_, -, hagrees⟩ := hsound.agrees j job hjob
      exact ⟨split, hsplit, hsame.trans (hadvances.rest_sameFor hx hagrees)⟩
    · rw [List.getElem?_set_ne (Ne.symm hself)] at hother
      obtain ⟨split, hsplit, hsame⟩ := h.claimed j other hother
      exact ⟨split, hsplit,
        hsame.trans (isLocal_rest hx j other p.site site (hothers j hself))⟩
  · rw [Pool.put, List.length_set] at hj
    exact (h.unclaimed j hj).trans (hothers j (by omega))
  · exact hadvances.changesOnly.mono fun name hname ↦ ⟨i, hname⟩

/-- Whatever turns workers take, every split goes as if it were alone. -/
theorem goesAlone_of_works (hx : x.IsSteady answer) (hworkers : 0 < workers)
    (h : Works x (.start s splits workers) turns p) : p.GoesAlone x splits s := by
  induction h with
  | refl => exact goesAlone_start s splits workers
  | snoc hworks htakes ih =>
    have hsound := sound_of_works hworkers hworks
    cases htakes with
    | claim hidle hclaim => exact ih.claim hx hsound hclaim
    | retire hidle hclaim =>
      rw [Pool.claim_of_none hclaim]
      exact ⟨ih.claimed, ih.unclaimed, ih.changes⟩
    | advance hjob hadvances => exact ih.advance hx hsound hjob hadvances

/-- No turn sees a stop. -/
theorem seesStop_of_works (hx : x.IsSteady answer) (h : Works x p turns q) :
    ∀ turn ∈ turns, turn.seesStop = false := by
  induction h with
  | refl => simp
  | snoc hworks htakes ih =>
    intro turn hturn
    obtain hturn | hturn := List.mem_append.mp hturn
    · exact ih turn hturn
    · rw [List.mem_singleton.mp hturn]
      cases htakes with
      | claim | retire => rfl
      | advance hjob hadvances =>
        cases hadvances with
        | pass hstop | interrupt hstop =>
          rw [hx.stops_eq] at hstop
          contradiction
        | begin | ask | refuse | grant | spoil | save | finish => rfl

/-- Splits that workers share settle. -/
theorem settles_of_works (hx : x.IsSteady answer) (hworkers : 0 < workers)
    (h : Works x (.start s splits workers) turns p) (hdone : p.IsDone) :
    Settles x splits s p.records p.site.disk := by
  have hsound := sound_of_works hworkers h
  have halone := goesAlone_of_works hx hworkers h
  obtain ⟨hlength, hended⟩ := hsound.all_ended hdone (seesStop_of_works hx h)
  have hfetched : ∀ i split, splits[i]? = some split →
      p.jobs[i]? = some (.ended ((x.fetchSplit i split).run s).value) ∧
        Alike x.directory (IsSplitName i) ((x.fetchSplit i split).run s).state.disk
          p.site.disk := by
    intro i split hsplit
    obtain ⟨record, hjob⟩ := hended i (List.getElem?_eq_some_iff.mp hsplit).1
    obtain ⟨split', hsplit', hvalue, halike⟩ := halone.claimed i _ hjob
    obtain rfl : split = split' := Option.some.inj (hsplit.symm.trans hsplit')
    obtain rfl : record = ((x.fetchSplit i split).run s).value := Option.some.inj hvalue
    exact ⟨hjob, halike⟩
  have hjobs : p.jobs = splits.zipIdx.map fun a ↦
      .ended ((x.fetchSplit a.2 a.1).run s).value := by
    apply List.ext_getElem?
    intro i
    rw [List.getElem?_map, List.getElem?_zipIdx]
    cases hsplit : splits[i]? with
    | none =>
      have hi : p.jobs.length ≤ i := hlength ▸ List.getElem?_eq_none_iff.mp hsplit
      rw [List.getElem?_eq_none hi]
      rfl
    | some split =>
      rw [(hfetched i split hsplit).1]
      simp
  refine ⟨?_, fun i split hsplit ↦ (hfetched i split hsplit).2,
    fun i hi ↦ halone.unclaimed i (hlength ▸ hi), halone.changes⟩
  have hrecords := hsound.records_perm
  rw [hjobs, List.filterMap_map] at hrecords
  exact hrecords.trans (.of_eq (congrFun List.filterMap_eq_map _))

/-! ## Whole extractions -/

/-- What an extraction comes to when its splits have been fetched: their manifest is written. -/
def concluded (x : Extraction σ) (available : Nat) (s : Site σ)
    (r : Act.Result (Site σ) (List Record)) :
    Act.Result (Site σ) (Except Service.Error Manifest) :=
  (x.conclude
    { entity := x.entity, baseUrl := x.service.baseText, available, splits := inOrder r.value,
      started := x.watch.now (x.prepared s).world.peer,
      finished := x.watch.now r.state.world.peer }).run r.state

/-- Extractions that tell of the same records and leave the same files but for their manifests,
which may tell of other times. -/
structure SameOutcome (x : Extraction σ)
    (r r' : Act.Result (Site σ) (Except Service.Error Manifest)) : Prop where
  splits_eq : r'.value.map (·.splits) = r.value.map (·.splits)
  changes : ChangesOnly x.directory (· = Manifest.fileName) r.state.disk r'.state.disk
  read_iff : ∀ i n body, r'.state.disk.read (pagePath x.directory i n) = .ok body ↔
    r.state.disk.read (pagePath x.directory i n) = .ok body

/-- Where a manifest can be written it can be written at any time and on any disk with the same
paths. -/
theorem conclude_map_splits {m m' : Manifest} (hsplits : m'.splits = m.splits)
    (h : Disk.SamePaths x.directory s.disk t.disk) :
    ((x.conclude m').run t).value.map (·.splits) = ((x.conclude m).run s).value.map (·.splits) := by
  have hwrites := h.map_write Plan.isPlain_manifest (Text.bytesOf m.text)
    (Text.bytesOf m'.text)
  change (t.disk.write x.manifestPath _).map _ = (s.disk.write x.manifestPath _).map _ at hwrites
  cases hwrite : s.disk.write x.manifestPath (Text.bytesOf m.text) with
  | error fault =>
    cases hwrite' : t.disk.write x.manifestPath (Text.bytesOf m'.text) with
    | error fault' =>
      obtain rfl : fault' = fault := by simpa [hwrite, hwrite', Except.map] using hwrites
      rw [run_conclude_of_error hwrite, run_conclude_of_error hwrite']
    | ok disk' => simp [hwrite, hwrite', Except.map] at hwrites
  | ok disk =>
    cases hwrite' : t.disk.write x.manifestPath (Text.bytesOf m'.text) with
    | error fault' => simp [hwrite, hwrite', Except.map] at hwrites
    | ok disk' =>
      rw [run_conclude_of_ok hwrite, run_conclude_of_ok hwrite']
      exact congrArg Except.ok hsplits

/-- Extractions whose splits settle have the same outcome. -/
theorem Settles.sameOutcome {r r' : Act.Result (Site σ) (List Record)}
    (h : Settles x splits (x.prepared s) r.value r.state.disk)
    (k : Settles x splits (x.prepared s) r'.value r'.state.disk) (available : Nat) :
    SameOutcome x (x.concluded available s r) (x.concluded available s r') := by
  obtain ⟨hrecords, hfind⟩ := h.unique k
  have hpages := h.changes.symm.trans k.changes
  have hsame : ChangesOnly x.directory (· = Manifest.fileName) r.state.disk r'.state.disk :=
    .of_find?_eq hpages.directories.here hfind
  have hall : ChangesOnly x.directory (· = Manifest.fileName)
      (x.concluded available s r).state.disk (x.concluded available s r').state.disk :=
    ((conclude_changesOnly x _ r.state).symm.trans hsame).trans (conclude_changesOnly x _ r'.state)
  refine ⟨conclude_map_splits hrecords hpages.samePaths, hall, fun i n body ↦ ?_⟩
  refine hall.read_iff (Plan.isPlain_pageFileName i n) fun hname ↦ ?_
  exact Plan.not_isPageName_manifest (.inl hname.symm)

/-- A run that starts concludes what it has fetched. -/
theorem run_eq_concluded (h : x.Starts splits s) (available : Nat) :
    ((x.run available splits).run s).value =
        (x.concluded available s (x.fetched splits s)).value ∧
      ((x.run available splits).run s).state =
        (x.concluded available s (x.fetched splits s)).state := by
  rw [run_of_prepared h.prepares]
  exact run_extract h.builds available s

/-- A steady extraction has the outcome of a run that starts, which takes the splits of its plan up
one after another: the records in the manifest and the files of the pages are the same in whatever
order splits are taken up, and however many workers share them and take turns at them. -/
theorem order_immaterial (hx : x.IsSteady answer) (hstarts : x.Starts splits s)
    (available : Nat) :
    let planned := (x.run available splits).run s
    (∀ claimed, claimed.Perm (Queue.ofList splits).waiting →
      let taken := (x.fetchSplits claimed).run (x.prepared s)
      inOrder taken.value = (x.manifest available splits s).splits ∧
        SameOutcome x planned (x.concluded available s taken)) ∧
    ∀ workers turns p, 0 < workers → x.Conducts splits s workers turns p →
      (p.manifest x available s).splits = (x.manifest available splits s).splits ∧
        SameOutcome x planned (p.result x available s) := by
  obtain ⟨hvalue, hstate⟩ := run_eq_concluded hstarts available
  have hplanned : Settles x splits (x.prepared s) (x.fetched splits s).value
      (x.fetched splits s).state.disk :=
    fetchSplits_settles hx (.refl (Queue.ofList splits).waiting) (x.prepared s)
  have hsame {r : Act.Result (Site σ) (List Record)}
      (hr : Settles x splits (x.prepared s) r.value r.state.disk) :
      SameOutcome x ((x.run available splits).run s) (x.concluded available s r) := by
    obtain ⟨hsplits, hchanges, hread⟩ := Settles.sameOutcome hplanned hr available
    rw [← hvalue] at hsplits
    rw [← hstate] at hchanges hread
    exact ⟨hsplits, hchanges, hread⟩
  refine ⟨fun claimed hperm ↦ ?_, fun workers turns p hworkers hconducts ↦ ?_⟩
  · have htaken := fetchSplits_settles hx hperm (x.prepared s)
    exact ⟨(hplanned.unique htaken).1, hsame htaken⟩
  · have hshared := settles_of_works hx hworkers hconducts.works hconducts.done
    exact ⟨(hplanned.unique hshared).1, hsame (r := ⟨p.records, [], p.site⟩) hshared⟩

/-- A reply that refuses the page behind the second record, and grants any other. -/
def replyByUrl (url : Url) : Transport.Outcome :=
  .ok ⟨if Endpoints.pageOf url = some ⟨2, 1⟩ then 404 else 200, "", none, [52]⟩

/-- An extraction that is never stopped, from a peer that has no state and answers by the URL. -/
def stateless : Extraction Unit where
  service :=
    { endpoints := ⟨⟨"http".toList, none, .segments [], none, none⟩,
        ⟨"User", none, none, none, none, []⟩⟩
      peer :=
        { send := fun request ↦ Act.step fun state ↦ (replyByUrl request.url, state)
          fetchToken := Act.step fun state ↦ (.ok "", state) }
      credentials := .basic "" "", policy := .standard }
  outputDir := ""
  workers := 2
  watch := { isStopped := fun _ ↦ false, now := fun _ ↦ default }

/-- A site on which nothing has been done. -/
def untouchedSite : Site Unit := ⟨⟨(), none⟩, ⟨[], []⟩⟩

/-- Two workers take turns and end the later split first, or one takes it up first: the manifest
lists both splits in order, and the files are the same. -/
theorem order_immaterial_twoSplits :
    let splits : List Split := [⟨1, 2, 1⟩, ⟨3, 3, 1⟩]
    let planned := (stateless.run 3 splits).run untouchedSite
    let taken := (stateless.fetchSplits [(1, ⟨3, 3, 1⟩), (0, ⟨1, 2, 1⟩)]).run
      (stateless.prepared untouchedSite)
    (inOrder taken.value = (stateless.manifest 3 splits untouchedSite).splits ∧
      SameOutcome stateless planned (stateless.concluded 3 untouchedSite taken)) ∧
    ∃ turns p, stateless.Conducts splits untouchedSite 2 turns p ∧
      p.records = [⟨1, 3, 3, 1, 0, 0, .failed "unexpected HTTP 404 4 from data page"⟩,
        ⟨0, 1, 2, 1, 2, 2, .completed⟩] ∧
      (p.manifest stateless 3 untouchedSite).splits =
          (stateless.manifest 3 splits untouchedSite).splits ∧
        SameOutcome stateless planned (p.result stateless 3 untouchedSite) := by
  have hsend : ∀ (request : Http.Request) state,
      ((stateless.service.peer.send request).run state).value = replyByUrl request.url :=
    fun _ _ ↦ rfl
  have hsteady := isSteady_of_replies hsend (fun _ _ ↦ ⟨"", rfl⟩) (fun _ ↦ rfl) ⟨(), none⟩
  have hstarts : stateless.Starts [⟨1, 2, 1⟩, ⟨3, 3, 1⟩] untouchedSite :=
    ⟨by decide +kernel, rfl⟩
  obtain ⟨htaken, hshared⟩ := order_immaterial hsteady hstarts 3
  have hstart := Works.refl (x := stateless)
    (p := .start (stateless.prepared untouchedSite) [⟨1, 2, 1⟩, ⟨3, 3, 1⟩] 2)
  have hclaimed := (hstart.snoc (.claim (by decide) rfl)).snoc (.claim (by decide) rfl)
  have hbegun := (hclaimed.snoc (.advance (i := 0) rfl (.begin rfl))).snoc
    (.advance (i := 1) rfl (.begin rfl))
  have hasked := (hbegun.snoc
    (.advance (i := 0)
      (show _ = some (.between (startRecord 0 ⟨1, 2, 1⟩) [⟨0, 1⟩, ⟨1, 1⟩]) from rfl)
      (.ask rfl))).snoc
    (.advance (i := 1) (show _ = some (.between (startRecord 1 ⟨3, 3, 1⟩) [⟨2, 1⟩]) from rfl)
      (.ask rfl))
  have hgranted := hasked.snoc (.advance (i := 0) rfl
    (.grant (show _ = Except.ok ⟨200, "", none, [52]⟩ from by decide +kernel)))
  have hrefused := hgranted.snoc (.advance (i := 1) rfl
    (.refuse (e := .unexpectedStatus "data page" 404 "4") (by decide +kernel)))
  have hsaved := hrefused.snoc (.advance (i := 0) rfl (.save (by decide +kernel)))
  have hgranted' := (hsaved.snoc (.advance (i := 0) rfl (.ask rfl))).snoc (.advance (i := 0) rfl
    (.grant (show _ = Except.ok ⟨200, "", none, [52]⟩ from by decide +kernel)))
  have hended := (hgranted'.snoc (.advance (i := 0) rfl (.save (by decide +kernel)))).snoc
    (.advance (i := 0) rfl .finish)
  have hleft := (hended.snoc (.retire (by decide) rfl)).snoc (.retire (by decide) rfl)
  have hconducts : stateless.Conducts [⟨1, 2, 1⟩, ⟨3, 3, 1⟩] untouchedSite 2 _ _ :=
    ⟨hstarts.prepares, hleft, by decide, by decide⟩
  refine ⟨htaken _ (.swap _ _ _), _, _, hconducts, by decide +kernel, ?_⟩
  exact hshared 2 _ _ (by decide) hconducts

end Harvest.Extraction

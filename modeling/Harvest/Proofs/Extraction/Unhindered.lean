import Harvest.Proofs.Extraction.Requests
import Harvest.Proofs.Plan.Coverage

/-!
# Extractions that nothing gets in the way of

Where no stop is seen, every page is granted and every file can be written, an extraction asks for
the pages of its splits and for nothing else, is granted each of them once, keeps each in a file of
its own as it was granted, and leaves a manifest that counts them all. This holds for any number of
workers and any order of their turns.
Design: `SPEC_FULL.md:264–272`.
-/

namespace Harvest.Extraction

open Endpoints (pageOf)
open Manifest (Record)
open Plan (Page Split)

variable {σ α β : Type} {x : Extraction σ} {s : Site σ} {p : Pool σ} {splits : List Split}
  {turns : List (Turn σ)} {i available : Nat} {split : Split} {record : Record} {d : Disk}

/-! ## Splits that are completed -/

/-- Whether a turn goes well: it sees no stop, it is granted its page, or it writes it. -/
def Turn.goesWell (x : Extraction σ) : Turn σ → Bool
  | passed _ | interrupted _ _ => false
  | fetched _ page world => ((x.service.fetchPage page).run world).value.isOk
  | written _ _ outcome => outcome.isOk
  | _ => true

/-- Nothing gets in the way of an extraction: all turns go well, and the manifest can be written. -/
structure Unhindered (x : Extraction σ) (available : Nat) (s : Site σ) (turns : List (Turn σ))
    (p : Pool σ) : Prop where
  goesWell : ∀ turn ∈ turns, turn.goesWell x = true
  concludes : ∃ disk, p.site.disk.write x.manifestPath
    (Text.bytesOf (p.manifest x available s).text) = .ok disk

private theorem Unhindered.unstopped (h : Unhindered x available s turns p) :
    ∀ turn ∈ turns, turn.seesStop = false := by
  intro turn hturn
  have hwell := h.goesWell turn hturn
  cases turn with
  | passed | interrupted => simp [Turn.goesWell] at hwell
  | _ => rfl

private theorem Unhindered.answer_eq (h : Unhindered x available s turns p) :
    ∀ a ∈ tries turns, ∃ response, a.2.answer x = .ok response := by
  rintro ⟨i, t⟩ ha
  have hwell : (t.answer x).isOk = true := h.goesWell _ (mem_tries.mp ha)
  cases hanswer : t.answer x with
  | ok response => exact ⟨response, rfl⟩
  | error e => simp [hanswer, Except.isOk, Except.toBool] at hwell

/-- The bodies that the pages of split `i` are granted with. -/
def bodies (x : Extraction σ) (turns : List (Turn σ)) (i : Nat) : List Text.Bytes :=
  (trail i turns).tries.map (Try.body x)

/-- A completed split, with the bodies of its pages. -/
def completedRecord (i : Nat) (split : Split) (bodies : List Text.Bytes) : Record where
  index := i
  first := split.first
  last := split.last
  batch := split.batch
  pages := split.pages.length
  bytes := (bodies.map List.length).sum
  outcome := .completed

/-- What a record accounts for are the bodies of the calls. -/
theorem Accounts.bodies_eq {tries : List (Try σ)} (h : Accounts x d i split record tries)
    (hlength : tries.length = record.pages) :
    record.bytes = ((tries.map (Try.body x)).map List.length).sum ∧
      ∀ n body, (tries.map (Try.body x))[n]? = some body →
        d.read (pagePath x.directory i n) = .ok body := by
  obtain ⟨bodies, hbodies, hbytes, hread⟩ := h.exists_bodies
  have heq : tries.map (Try.body x) = bodies := by
    refine List.ext_getElem (by rw [List.length_map, hlength, hbodies]) fun n hn hn' ↦ ?_
    obtain ⟨-, t, response, ht, hanswer, -, hbody⟩ :=
      hread n _ (List.getElem?_eq_getElem hn')
    obtain ⟨_, ht⟩ := List.getElem?_eq_some_iff.mp ht
    rw [List.getElem_map, ht, Try.body_eq hanswer, hbody]
  rw [heq]
  exact ⟨hbytes, fun n body hbody ↦ (hread n body hbody).1⟩

/-- A split in whose trail nothing went wrong is completed: all its pages have been asked for and
lie on the disk. -/
theorem Ends.eq_completedRecord {happened : Trail σ} (h : Ends x d i split happened record)
    (hstops : happened.stops = []) (hfaults : happened.faults = [])
    (hanswers : ∀ t ∈ happened.tries, ∃ response, t.answer x = .ok response) :
    record = completedRecord i split (happened.tries.map (Try.body x)) ∧
      happened.tries.map Try.page = split.pages ∧
      ∀ n body, (happened.tries.map (Try.body x))[n]? = some body →
        d.read (pagePath x.directory i n) = .ok body := by
  cases h with
  | interrupted => simp at hstops
  | spoiled => simp at hfaults
  | refused _ _ _ _ hanswer =>
    obtain ⟨response, hgranted⟩ := hanswers _ List.mem_concat_self
    rw [hanswer] at hgranted
    simp at hgranted
  | completed haccounts houtcome hall hlength =>
    obtain ⟨hbytes, hread⟩ := haccounts.bodies_eq hlength
    have hpages := haccounts.pages_eq
    rw [hlength, hall, List.take_length] at hpages
    refine ⟨?_, hpages, hread⟩
    obtain ⟨index, first, last, batch, pages, bytes, outcome⟩ := record
    obtain rfl := haccounts.index_eq
    obtain rfl := haccounts.first_eq
    obtain rfl := haccounts.last_eq
    obtain rfl := haccounts.batch_eq
    obtain rfl : outcome = .completed := houtcome
    obtain rfl : pages = split.pages.length := hall
    rw [completedRecord, ← hbytes]

/-- Every split is completed. -/
theorem Sound.completed (h : Sound x splits turns p) (hdone : p.IsDone)
    (hfree : Unhindered x available s turns p) (hsplit : splits[i]? = some split) :
    p.jobs[i]? = some (.ended (completedRecord i split (bodies x turns i))) ∧
      (trail i turns).tries.map Try.page = split.pages ∧
      ∀ n body, (bodies x turns i)[n]? = some body →
        p.site.disk.read (pagePath x.directory i n) = .ok body := by
  obtain ⟨hlt, -⟩ := List.getElem?_eq_some_iff.mp hsplit
  obtain ⟨record, hjob⟩ := (h.all_ended hdone hfree.unstopped).2 i hlt
  obtain ⟨-, split', hsplit', hends⟩ := h.ended hjob
  obtain rfl : split = split' := Option.some.inj (hsplit.symm.trans hsplit')
  have hstops : (trail i turns).stops = [] := by
    rw [List.eq_nil_iff_forall_not_mem]
    intro n hn
    exact Bool.false_ne_true (hfree.goesWell _ (of_mem_stops hn))
  have hfaults : (trail i turns).faults = [] := by
    rw [List.eq_nil_iff_forall_not_mem]
    rintro ⟨n, e⟩ hn
    exact Bool.false_ne_true (hfree.goesWell _ (of_mem_faults hn))
  have hanswers : ∀ t ∈ (trail i turns).tries, ∃ response, t.answer x = .ok response := by
    intro t ht
    rw [tries_trail, List.mem_map] at ht
    obtain ⟨a, ha, rfl⟩ := ht
    exact hfree.answer_eq a (List.mem_filter.mp ha).1
  obtain ⟨rfl, hpages, hread⟩ := hends.eq_completedRecord hstops hfaults hanswers
  exact ⟨hjob, hpages, hread⟩

/-! ## Whole extractions -/

/-- All that there is to fetch has been fetched: the pages of the splits, and nothing else. -/
structure FetchesAll (x : Extraction σ) (splits : List Split) (turns : List (Turn σ)) (disk : Disk)
    (m : Manifest) (bodies : Nat → List Text.Bytes) : Prop where
  requested_iff : ∀ found, found ∈ (requested x turns).map pageOf ↔
    ∃ split ∈ splits, ∃ page ∈ split.pages, found = some page
  length_bodies : ∀ i split, splits[i]? = some split → (bodies i).length = split.pages.length
  /-- Every page is granted once, with the body that belongs to it. -/
  granted_perm : ((granted x turns).map fun a ↦ (pageOf a.1, a.2.body)).Perm
    (splits.zipIdx.flatMap fun a ↦ (a.1.pages.map some).zip (bodies a.2))
  /-- This body is what its file holds. -/
  read_eq : ∀ i < splits.length, ∀ n body, (bodies i)[n]? = some body →
    disk.read (pagePath x.directory i n) = .ok body
  splits_eq : m.splits = splits.zipIdx.map fun a ↦ completedRecord a.2 a.1 (bodies a.2)
  isComplete_eq : m.isComplete = true
  totalPages_eq : m.totalPages = (splits.flatMap Split.pages).length
  totalBytes_eq : m.totalBytes = ((granted x turns).map fun a ↦ a.2.body.length).sum

/-- What is listed by positions is listed by the items at them. -/
private theorem flatMap_range_eq {l : List α} {f : Nat → List β} {g : α × Nat → List β}
    (h : ∀ i a, l[i]? = some a → f i = g (a, i)) :
    (List.range l.length).flatMap f = l.zipIdx.flatMap g := by
  have hrange : List.range l.length = l.zipIdx.map Prod.snd := by
    rw [List.zipIdx_map_snd, List.range_eq_range']
  rw [hrange, List.flatMap_map]
  exact List.flatMap_congr fun a ha ↦ h a.2 a.1 (List.mem_zipIdx_iff_getElem?.mp ha)

/-- The pages of all splits, each with its body. -/
private theorem map_fst_pages {bodies : Nat → List Text.Bytes}
    (h : ∀ i split, splits[i]? = some split → (bodies i).length = split.pages.length) :
    (splits.zipIdx.flatMap fun a ↦ (a.1.pages.map some).zip (bodies a.2)).map Prod.fst =
      (splits.flatMap Split.pages).map some := by
  calc
    _ = splits.zipIdx.flatMap fun a ↦ a.1.pages.map some := by
      rw [List.map_flatMap]
      apply List.flatMap_congr
      intro a ha
      apply List.map_fst_zip
      rw [h a.2 a.1 (List.mem_zipIdx_iff_getElem?.mp ha), List.length_map]
    _ = (splits.zipIdx.map Prod.fst).flatMap fun split ↦ split.pages.map some := by
      rw [List.flatMap_map]
    _ = (splits.flatMap Split.pages).map some := by
      rw [List.zipIdx_map_fst, List.map_flatMap]

private theorem map_snd_pages {bodies : Nat → List Text.Bytes}
    (h : ∀ i split, splits[i]? = some split → (bodies i).length = split.pages.length) :
    (splits.zipIdx.flatMap fun a ↦ (a.1.pages.map some).zip (bodies a.2)).map Prod.snd =
      splits.zipIdx.flatMap fun a ↦ bodies a.2 := by
  rw [List.map_flatMap]
  apply List.flatMap_congr
  intro a ha
  apply List.map_snd_zip
  rw [h a.2 a.1 (List.mem_zipIdx_iff_getElem?.mp ha), List.length_map]

section

variable {m : Manifest} {bodies : Nat → List Text.Bytes}
  (hm : m.splits = splits.zipIdx.map fun a ↦ completedRecord a.2 a.1 (bodies a.2))
include hm

/-- A manifest of completed splits is complete, and its totals are those of their pages. -/
theorem isComplete_of_completed : m.isComplete = true := by
  rw [Manifest.isComplete, hm, List.all_map]
  exact List.all_eq_true.mpr fun a _ ↦ beq_self_eq_true _

private theorem totalPages_of_completed : m.totalPages = (splits.flatMap Split.pages).length := by
  calc
    m.totalPages = (splits.zipIdx.map fun a ↦ a.1.pages.length).sum := by
      rw [Manifest.totalPages, hm, List.map_map]
      rfl
    _ = ((splits.zipIdx.map Prod.fst).map fun split ↦ split.pages.length).sum := by
      rw [List.map_map]
      rfl
    _ = (splits.flatMap Split.pages).length := by
      rw [List.zipIdx_map_fst, List.length_flatMap]

private theorem totalBytes_of_completed :
    m.totalBytes = ((splits.zipIdx.flatMap fun a ↦ bodies a.2).map List.length).sum := by
  calc
    m.totalBytes = (splits.zipIdx.map fun a ↦ ((bodies a.2).map List.length).sum).sum := by
      rw [Manifest.totalBytes, hm, List.map_map]
      rfl
    _ = ((splits.zipIdx.flatMap fun a ↦ bodies a.2).map List.length).sum := by
      rw [List.map_flatMap, List.flatMap_def, List.sum_flatten, List.map_map]
      rfl

end

section

variable (h : Sound x splits turns p) (hdone : p.IsDone) (hfree : Unhindered x available s turns p)
include h hdone hfree

private theorem Sound.length_bodies (hsplit : splits[i]? = some split) :
    (bodies x turns i).length = split.pages.length := by
  rw [bodies, List.length_map, ← (h.completed hdone hfree hsplit).2.1, List.length_map]

/-- The pages that workers ask for are those of the splits. -/
theorem Sound.requested_iff (found : Option Page) : found ∈ (requested x turns).map pageOf ↔
    ∃ split ∈ splits, ∃ page ∈ split.pages, found = some page := by
  rw [mem_requested hfree.answer_eq]
  constructor
  · rintro ⟨⟨i, t⟩, hmem, rfl⟩
    have hlt := h.lt_of_mem_tries hmem
    obtain ⟨-, hpages, -⟩ := h.completed hdone hfree (List.getElem?_eq_getElem hlt)
    refine ⟨splits[i], List.getElem_mem hlt, t.page, ?_, rfl⟩
    rw [← hpages, tries_trail]
    exact List.mem_map_of_mem (List.mem_map.mpr
      ⟨(i, t), List.mem_filter.mpr ⟨hmem, beq_self_eq_true i⟩, rfl⟩)
  · rintro ⟨split, hsplit, page, hpage, rfl⟩
    obtain ⟨i, hi⟩ := List.mem_iff_getElem?.mp hsplit
    obtain ⟨-, hpages, -⟩ := h.completed hdone hfree hi
    rw [← hpages, tries_trail, List.map_map] at hpage
    obtain ⟨a, ha, rfl⟩ := List.mem_map.mp hpage
    exact ⟨a, (List.mem_filter.mp ha).1, rfl⟩

private theorem Sound.granted_perm : ((granted x turns).map fun a ↦ (pageOf a.1, a.2.body)).Perm
    (splits.zipIdx.flatMap fun a ↦ (a.1.pages.map some).zip (bodies x turns a.2)) := by
  have hperm : (tries turns).Perm
      ((List.range splits.length).flatMap fun i ↦ (tries turns).filter (·.1 == i)) :=
    perm_flatMap_filter fun a ha ↦ h.lt_of_mem_tries ha
  have hsplits := flatMap_range_eq (l := splits)
    (f := fun i ↦ ((tries turns).filter (·.1 == i)).map fun a ↦ (some a.2.page, a.2.body x))
    (g := fun a ↦ (a.1.pages.map some).zip (bodies x turns a.2)) fun i split hsplit ↦ by
      obtain ⟨-, hpages, -⟩ := h.completed hdone hfree hsplit
      rw [← hpages, bodies, List.map_map, List.zip_map', tries_trail, List.map_map]
      rfl
  rw [map_granted hfree.answer_eq, ← hsplits, ← List.map_flatMap]
  exact hperm.map _

/-- All splits have ended, completed. -/
theorem Sound.jobs_eq : p.jobs = splits.zipIdx.map fun a ↦
    .ended (completedRecord a.2 a.1 (bodies x turns a.2)) := by
  apply List.ext_getElem?
  intro i
  rw [List.getElem?_map, List.getElem?_zipIdx]
  cases hsplit : splits[i]? with
  | none =>
    have hnone : p.jobs[i]? = none := by
      rw [List.getElem?_eq_none_iff, (h.all_ended hdone hfree.unstopped).1]
      exact List.getElem?_eq_none_iff.mp hsplit
    rw [hnone]
    rfl
  | some split =>
    rw [(h.completed hdone hfree hsplit).1]
    simp

private theorem Sound.records_eq : inOrder p.records = splits.zipIdx.map fun a ↦
    completedRecord a.2 a.1 (bodies x turns a.2) := by
  rw [h.inOrder_records, h.jobs_eq hdone hfree, List.filterMap_map]
  exact congrFun List.filterMap_eq_map _

/-- A manifest that lists these records has fetched all that there is to fetch. -/
theorem Sound.fetchesAll {disk : Disk} {m : Manifest} (hm : m.splits = inOrder p.records)
    (hchange : Disk.ChangesOnly x.directory (· = Manifest.fileName) p.site.disk disk) :
    FetchesAll x splits turns disk m (bodies x turns) := by
  rw [h.records_eq hdone hfree] at hm
  have hlength : ∀ i split, splits[i]? = some split →
      (bodies x turns i).length = split.pages.length :=
    fun _ _ hsplit ↦ h.length_bodies hdone hfree hsplit
  have hperm := h.granted_perm hdone hfree
  refine ⟨h.requested_iff hdone hfree, hlength, hperm, ?_, hm, ?_, ?_, ?_⟩
  · intro i hi n body hbody
    obtain ⟨-, -, hread⟩ := h.completed hdone hfree (List.getElem?_eq_getElem hi)
    exact (hchange.read_iff (Plan.isPlain_pageFileName _ _)
      fun hname ↦ Plan.not_isPageName_manifest (.inl hname.symm)).mpr (hread n body hbody)
  · exact isComplete_of_completed hm
  · exact totalPages_of_completed hm
  · rw [totalBytes_of_completed hm, ← map_snd_pages hlength, List.map_map]
    have hsum := (hperm.map fun a ↦ a.2.length).sum_nat
    rw [List.map_map] at hsum
    exact hsum.symm

end

section

variable {disk : Disk} {m : Manifest} {bodies : Nat → List Text.Bytes} {page : Page}

/-- Where no two pages ask for the same, every page is granted once. -/
theorem FetchesAll.count_eq_one (h : FetchesAll x splits turns disk m bodies)
    (hnodup : (splits.flatMap Split.pages).Nodup) (hpage : page ∈ splits.flatMap Split.pages) :
    ((granted x turns).map fun a ↦ pageOf a.1).count (some page) = 1 := by
  have hperm : ((granted x turns).map fun a ↦ pageOf a.1).Perm
      ((splits.flatMap Split.pages).map some) := by
    have hfirst := h.granted_perm.map Prod.fst
    rwa [map_fst_pages h.length_bodies, List.map_map] at hfirst
  rw [hperm.count_eq]
  exact List.count_eq_one_of_mem (hnodup.map (Option.some_injective _)) (List.mem_map_of_mem hpage)

/-- Then the file of a page holds the answer that the page was granted with. -/
theorem FetchesAll.read_eq_body (h : FetchesAll x splits turns disk m bodies)
    (hnodup : (splits.flatMap Split.pages).Nodup) {n : Nat} (hsplit : splits[i]? = some split)
    (hpage : split.pages[n]? = some page) {a : Url × Http.Response} (ha : a ∈ granted x turns)
    (hasks : pageOf a.1 = some page) : disk.read (pagePath x.directory i n) = .ok a.2.body := by
  obtain ⟨hi, -⟩ := List.getElem?_eq_some_iff.mp hsplit
  obtain ⟨hn, -⟩ := List.getElem?_eq_some_iff.mp hpage
  obtain ⟨body, hbody⟩ : ∃ body, (bodies i)[n]? = some body :=
    ⟨_, List.getElem?_eq_getElem (h.length_bodies i split hsplit ▸ hn)⟩
  -- Of the pages with their bodies, only one is this page.
  have hall := hnodup.map (Option.some_injective _)
  rw [← map_fst_pages h.length_bodies] at hall
  have hmem : (some page, body) ∈
      splits.zipIdx.flatMap fun a ↦ (a.1.pages.map some).zip (bodies a.2) := by
    refine List.mem_flatMap.mpr ⟨(split, i), List.mem_zipIdx_iff_getElem?.mpr hsplit, ?_⟩
    refine List.mem_of_getElem? (i := n) ?_
    rw [List.getElem?_zip_eq_some, List.getElem?_map, hpage]
    exact ⟨rfl, hbody⟩
  have hmem' := h.granted_perm.mem_iff.mp (List.mem_map_of_mem ha)
  rw [hasks] at hmem'
  have hsame := List.inj_on_of_nodup_map hall hmem hmem' rfl
  rw [h.read_eq i hi n body hbody, (Prod.mk.inj hsame).2]

end

/-- However many workers share the splits of a plan, and in whatever order they take turns: where
no stop is seen, every page is granted and every file can be written, the extraction ends with its
manifest, has been granted every page of the plan once and nothing else, and keeps all of them. A
run that starts is an extraction by one worker. -/
theorem fetchesAll_of_unhindered {l : Plan.Limits} {r : Plan.Request}
    (hplan : Plan.plan l r = .ok splits) (x : Extraction σ) (available : Nat) (s : Site σ) :
    (∀ workers turns p, 0 < workers → x.Conducts splits s workers turns p →
      Unhindered x available s turns p →
      let m := p.manifest x available s
      let result := p.result x available s
      result.value = .ok m ∧
      (∀ page ∈ splits.flatMap Split.pages,
        ((granted x turns).map fun a ↦ pageOf a.1).count (some page) = 1) ∧
      (∀ i split n page, splits[i]? = some split → split.pages[n]? = some page →
        ∀ a ∈ granted x turns, pageOf a.1 = some page →
          result.state.disk.read (pagePath x.directory i n) = .ok a.2.body) ∧
      ∃ bodies, FetchesAll x splits turns result.state.disk m bodies) ∧
    (x.Starts splits s →
      let result := (x.run available splits).run s
      ∃ turns p, x.Conducts splits s 1 turns p ∧
        result.value = (p.result x available s).value ∧
        result.state = (p.result x available s).state ∧
        Event.effects result.trace = effectsOf x turns) := by
  refine ⟨fun workers turns p hworkers hconducts hfree ↦ ?_,
    fun hstarts ↦ run_conducts hstarts available⟩
  have hsound := sound_of_works hworkers hconducts.works
  have hall := hsound.fetchesAll hconducts.done hfree (m := p.manifest x available s) rfl
    (conclude_changesOnly x (p.manifest x available s) p.site)
  have hnodup := Plan.nodup_pages hplan
  refine ⟨?_, fun page hpage ↦ hall.count_eq_one hnodup hpage,
    fun i split n page hsplit hpage a ha hasks ↦ hall.read_eq_body hnodup hsplit hpage ha hasks,
    _, hall⟩
  obtain ⟨disk, hwrite⟩ := hfree.concludes
  rw [Pool.result, run_conclude_of_ok hwrite]

/-- Two workers take turns at the splits of a plan; one page is granted at the second attempt. -/
theorem fetchesAll_of_unhindered_twoWorkers :
    Plan.plan ⟨2, 4, 3, 3⟩ ⟨12, 9, 1, 0, 0⟩ = .ok [⟨2, 6, 4⟩, ⟨7, 10, 3⟩] ∧
    ∃ turns p, unstopped.Conducts [⟨2, 6, 4⟩, ⟨7, 10, 3⟩] (expecting [200, 503]) 2 turns p ∧
      let m := p.manifest unstopped 12 (expecting [200, 503])
      let result := p.result unstopped 12 (expecting [200, 503])
      result.value = .ok m ∧
      ((granted unstopped turns).map fun a ↦ pageOf a.1) =
        [some ⟨1, 4⟩, some ⟨6, 3⟩, some ⟨5, 1⟩, some ⟨9, 1⟩] ∧
      (requested unstopped turns).length = 5 ∧
      ∃ bodies, FetchesAll unstopped [⟨2, 6, 4⟩, ⟨7, 10, 3⟩] turns result.state.disk m bodies := by
  have hplan : Plan.plan ⟨2, 4, 3, 3⟩ ⟨12, 9, 1, 0, 0⟩ = .ok [⟨2, 6, 4⟩, ⟨7, 10, 3⟩] := by decide
  have hstart := Works.refl (x := unstopped)
    (p := .start (unstopped.prepared (expecting [200, 503])) [⟨2, 6, 4⟩, ⟨7, 10, 3⟩] 2)
  have hclaimed := (hstart.snoc (.claim (by decide) rfl)).snoc (.claim (by decide) rfl)
  have hbegun := (hclaimed.snoc (.advance (i := 0) rfl (.begin rfl))).snoc
    (.advance (i := 1) rfl (.begin rfl))
  have hasked := (hbegun.snoc
    (.advance (i := 0)
      (show _ = some (.between (startRecord 0 ⟨2, 6, 4⟩) [⟨1, 4⟩, ⟨5, 1⟩]) from rfl)
      (.ask rfl))).snoc
    (.advance (i := 1)
      (show _ = some (.between (startRecord 1 ⟨7, 10, 3⟩) [⟨6, 3⟩, ⟨9, 1⟩]) from rfl)
      (.ask rfl))
  have hgranted := (hasked.snoc (.advance (i := 0) rfl
    (.grant (show _ = Except.ok ⟨200, "", none, [52]⟩ from by decide +kernel)))).snoc
    (.advance (i := 1) rfl (.grant (show _ = Except.ok ⟨200, "", none, [52]⟩
      from by decide +kernel)))
  have hsaved := (hgranted.snoc (.advance (i := 0) rfl (.save (by decide +kernel)))).snoc
    (.advance (i := 0) rfl (.ask rfl))
  have hgranted' := hsaved.snoc (.advance (i := 0) rfl
    (.grant (show _ = Except.ok ⟨200, "", none, [52]⟩ from by decide +kernel)))
  have hsaved' := ((hgranted'.snoc (.advance (i := 1) rfl (.save (by decide +kernel)))).snoc
    (.advance (i := 1) rfl (.ask rfl))).snoc (.advance (i := 1) rfl
    (.grant (show _ = Except.ok ⟨200, "", none, [52]⟩ from by decide +kernel)))
  have hended := (((hsaved'.snoc (.advance (i := 1) rfl (.save (by decide +kernel)))).snoc
    (.advance (i := 1) rfl .finish)).snoc
    (.advance (i := 0) rfl (.save (by decide +kernel)))).snoc (.advance (i := 0) rfl .finish)
  have hleft := (hended.snoc (.retire (by decide) rfl)).snoc (.retire (by decide) rfl)
  have hconducts : unstopped.Conducts [⟨2, 6, 4⟩, ⟨7, 10, 3⟩] (expecting [200, 503]) 2 _ _ :=
    ⟨by decide +kernel, hleft, by decide, by decide⟩
  obtain ⟨hvalue, -, -, hall⟩ :=
    (fetchesAll_of_unhindered hplan unstopped 12 (expecting [200, 503])).1 2 _ _ (by decide)
      hconducts ⟨by decide +kernel, _, Disk.write_eq_ok_iff.mpr
        ⟨["User", "manifest.json"], by decide +kernel, by decide +kernel, rfl⟩⟩
  exact ⟨hplan, _, _, hconducts, hvalue, by decide +kernel, by decide +kernel, hall⟩

end Harvest.Extraction

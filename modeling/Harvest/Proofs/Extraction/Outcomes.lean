import Harvest.Proofs.Extraction.Workers
import Harvest.Proofs.Session.Operations
import Mathlib.Data.List.Sort

/-!
# What the records of an extraction tell

However workers take their turns, and whatever becomes of the pages: a record tells how far its
split came, which pages of it lie on the disk, and why the others do not. Without a stop there is
one record of every split, in order.
Design: `SPEC_FULL.md:267–271`.
-/

namespace Harvest.Extraction

open Disk (ChangesOnly)
open Manifest (Record)
open Plan (Page Split)

variable {σ : Type} {x : Extraction σ} {s : Site σ} {p : Pool σ} {splits : List Split}
  {turns : List (Turn σ)} {d e : Disk} {i workers available : Nat} {split : Split}
  {record : Record} {happened : Trail σ}

/-! ## Calls for pages -/

/-- What happens in a call for a page. -/
def Try.moments (x : Extraction σ) (t : Try σ) : List Session.Moment :=
  Session.moments x.service.peer 0 t.world ((x.service.fetchPage t.page).run t.world).trace

/-- The URL of a page. -/
def pageUrl (x : Extraction σ) (page : Page) : Url := x.service.endpoints.url (.data page)

/-- Every request of a call for a page asks for that page, and it is granted where the call comes
to an answer, once. -/
theorem Try.moments_spec (x : Extraction σ) (t : Try σ) :
    (∀ kept request outcome, .sent kept request outcome ∈ t.moments x →
      request.url = pageUrl x t.page) ∧
    ∀ response, t.answer x = .ok response → response.isSuccess = true ∧
      (t.moments x).filterMap Session.Moment.granted? = [(pageUrl x t.page, response)] := by
  obtain ⟨ms, outcome, htells, htakes, hvalue⟩ :=
    x.service.fetchEndpoint_takes "data page" (.data t.page) Http.json t.world
  have hmoments : t.moments x = ms := htells.moments_eq
  rw [hmoments]
  refine ⟨htakes.url_eq, fun response hanswer ↦ ?_⟩
  obtain ⟨rfl, hgranted⟩ := (hvalue response).mp hanswer
  refine ⟨hgranted, ?_⟩
  rw [htakes.filterMap_granted?]
  simp [Session.granted?, hgranted, pageUrl]

/-! ## Records -/

/-- What a record tells of split `i`, of what has happened to it and of the disk. -/
structure Reports (x : Extraction σ) (happened : Trail σ) (disk : Disk) (i : Nat)
    (split : Split) (record : Record) : Prop where
  range_eq : record.first = split.first ∧ record.last = split.last ∧ record.batch = split.batch
  /-- The pages that were asked for are the first ones, in order. -/
  pages_eq : happened.tries.map Try.page = split.pages.take happened.tries.length
  asks : ∀ t ∈ happened.tries, ∀ kept request outcome,
    .sent kept request outcome ∈ t.moments x → request.url = pageUrl x t.page
  /-- Pages that are counted were granted, and lie on the disk as they were answered. -/
  saved : ∃ bodies : List Text.Bytes, bodies.length = record.pages ∧
    record.bytes = (bodies.map List.length).sum ∧
    ∀ n body, bodies[n]? = some body → disk.read (pagePath x.directory i n) = .ok body ∧
      ∃ t response, happened.tries[n]? = some t ∧ t.answer x = .ok response ∧
        response.isSuccess = true ∧ response.body = body
  completed_iff : record.outcome = .completed ↔ record.pages = split.pages.length
  /-- The page behind those that are counted was asked for, and not granted or not written. -/
  failed_iff : ∀ text, record.outcome = .failed text ↔
    ∃ t e, happened.tries[record.pages]? = some t ∧ e.message = text ∧
      (t.answer x = .error e ∨ (record.pages, e) ∈ happened.faults)
  /-- A stop was seen before that page. -/
  interrupted_iff : record.outcome = .interrupted ↔
    record.pages < split.pages.length ∧ record.pages ∈ happened.stops
  /-- No page behind it was asked for. -/
  length_tries : happened.tries.length =
    record.pages + if record.outcome.isFailed then 1 else 0

/-- Pages that are accounted for were granted, and lie on the disk as they were answered. -/
theorem Accounts.exists_bodies {tries : List (Try σ)} (h : Accounts x d i split record tries) :
    ∃ bodies : List Text.Bytes, bodies.length = record.pages ∧
      record.bytes = (bodies.map List.length).sum ∧
      ∀ n body, bodies[n]? = some body → d.read (pagePath x.directory i n) = .ok body ∧
        ∃ t response, tries[n]? = some t ∧ t.answer x = .ok response ∧
          response.isSuccess = true ∧ response.body = body := by
  obtain ⟨bodies, hsaved, hbytes⟩ := h.saved
  have hlength : bodies.length = record.pages := by
    rw [hsaved.length_eq, List.length_take_of_le h.pages_le]
  refine ⟨bodies, hlength, hbytes, fun n body hbody ↦ ?_⟩
  obtain ⟨hn, -⟩ := List.getElem?_eq_some_iff.mp hbody
  have hpage := List.getElem?_eq_getElem (hsaved.length_eq ▸ hn)
  obtain ⟨-, hread⟩ := hsaved.held n _ body hpage hbody
  obtain ⟨t, response, ht, hanswer, hread'⟩ := h.granted n (hlength ▸ hn)
  rw [hread, Except.ok.injEq] at hread'
  exact ⟨hread, t, response, ht, hanswer, ((t.moments_spec x).2 response hanswer).1, hread'.symm⟩

/-- The record of a split that has ended tells how. -/
theorem Ends.reports (h : Ends x d i split happened record) :
    Reports x happened d i split record := by
  -- All that depends on the way the split ended is how its outcome shows in the trail.
  have hreports (haccounts : Accounts x d i split record happened.tries)
      (hcompleted : record.outcome = .completed ↔ record.pages = split.pages.length)
      (hfailed : ∀ text, record.outcome = .failed text ↔
        ∃ t e, happened.tries[record.pages]? = some t ∧ e.message = text ∧
          (t.answer x = .error e ∨ (record.pages, e) ∈ happened.faults))
      (hinterrupted : record.outcome = .interrupted ↔
        record.pages < split.pages.length ∧ record.pages ∈ happened.stops)
      (hlength : happened.tries.length =
        record.pages + if record.outcome.isFailed then 1 else 0) :
      Reports x happened d i split record :=
    ⟨⟨haccounts.first_eq, haccounts.last_eq, haccounts.batch_eq⟩, haccounts.pages_eq,
      fun t _ ↦ (t.moments_spec x).1, haccounts.exists_bodies, hcompleted, hfailed, hinterrupted,
      hlength⟩
  cases h with
  | completed haccounts houtcome hall hlength =>
    refine hreports haccounts ?_ ?_ ?_ ?_
    · simp [houtcome, hall]
    · simp [houtcome, ← hlength]
    · simp [houtcome]
    · simp [houtcome, Manifest.Outcome.isFailed, hlength]
  | interrupted haccounts houtcome hlt hlength =>
    refine hreports haccounts ?_ ?_ ?_ ?_
    · simp [houtcome, Nat.ne_of_lt hlt]
    · simp [houtcome, ← hlength]
    · simp [houtcome, hlt]
    · simp [houtcome, Manifest.Outcome.isFailed, hlength]
  | refused haccounts houtcome hlt hlength hanswer =>
    refine hreports haccounts ?_ ?_ ?_ ?_
    · simp [houtcome, Nat.ne_of_lt hlt]
    · simp [houtcome, ← hlength, hanswer]
    · simp [houtcome]
    · simp [houtcome, Manifest.Outcome.isFailed, hlength]
  | spoiled haccounts houtcome hlt hlength hanswer =>
    refine hreports haccounts ?_ ?_ ?_ ?_
    · simp [houtcome, Nat.ne_of_lt hlt]
    · simp [houtcome, ← hlength, hanswer]
    · simp [houtcome]
    · simp [houtcome, Manifest.Outcome.isFailed, hlength]

/-! ## The records of a manifest -/

private theorem Ends.index_eq (h : Ends x d i split happened record) : record.index = i := by
  cases h with
  | completed haccounts | interrupted haccounts | refused haccounts | spoiled haccounts =>
    exact haccounts.index_eq

private theorem Agrees.ends (h : Agrees x d i split happened (.ended record)) :
    Ends x d i split happened record := by
  cases h with
  | ended hends => exact hends

/-- A split that has ended is the one that its record is about. -/
theorem Sound.ended (h : Sound x splits turns p) (hjob : p.jobs[i]? = some (.ended record)) :
    record.index = i ∧ ∃ split, splits[i]? = some split ∧
      Ends x p.site.disk i split (trail i turns) record := by
  obtain ⟨split, hsplit, hagrees⟩ := h.agrees i _ hjob
  exact ⟨hagrees.ends.index_eq, split, hsplit, hagrees.ends⟩

/-- The records of the splits that have ended. -/
theorem Sound.mem_filterMap (h : Sound x splits turns p) :
    record ∈ p.jobs.filterMap Job.record? ↔ p.jobs[record.index]? = some (.ended record) := by
  constructor
  · intro hmem
    obtain ⟨job, hjob, hrecord⟩ := List.mem_filterMap.mp hmem
    cases job with
    | ended ended =>
      obtain rfl : ended = record := by simpa [Job.record?] using hrecord
      obtain ⟨i, hi⟩ := List.mem_iff_getElem?.mp hjob
      rwa [(h.ended hi).1]
    | held | passed | between | asking | writing => simp [Job.record?] at hrecord
  · intro hjob
    exact List.mem_filterMap.mpr ⟨_, List.mem_of_getElem? hjob, rfl⟩

/-- They follow on each other in the order of the splits. -/
theorem Sound.pairwise_index (h : Sound x splits turns p) :
    (p.jobs.filterMap Job.record?).Pairwise (·.index < ·.index) := by
  rw [List.pairwise_filterMap, List.pairwise_iff_getElem]
  intro i j hi hj hij record hrecord record' hrecord'
  have hended {k : Nat} (hk : k < p.jobs.length) {record : Record}
      (hrecord : p.jobs[k].record? = some record) : p.jobs[k]? = some (.ended record) := by
    rw [List.getElem?_eq_getElem hk]
    cases hjob : p.jobs[k] <;> simp_all [Job.record?]
  rw [(h.ended (hended hi hrecord)).1, (h.ended (hended hj hrecord')).1]
  exact hij

/-- To sort records that stand in another order gives them in order. -/
theorem inOrder_of_perm {records records' : List Record} (h : records.Perm records')
    (hsorted : records'.Pairwise (·.index < ·.index)) : inOrder records = records' := by
  have hperm : (inOrder records).Perm records' := (List.mergeSort_perm _ _).trans h
  have hmerged : (inOrder records).Pairwise fun a b ↦ decide (a.index ≤ b.index) = true :=
    List.pairwise_mergeSort (fun a b c ↦ by simpa using Nat.le_trans)
      (fun a b ↦ by simpa using Nat.le_total _ _) records
  have hnodup : (records'.map (·.index)).Nodup :=
    (List.pairwise_map.mpr hsorted).imp Nat.ne_of_lt
  have hsame : ∀ a b, a ∈ inOrder records → b ∈ records' → a.index ≤ b.index →
      b.index ≤ a.index → a = b :=
    fun a b ha hb hab hba ↦
      List.inj_on_of_nodup_map hnodup (hperm.mem_iff.mp ha) hb (Nat.le_antisymm hab hba)
  exact hperm.eq_of_pairwise hsame (by simpa using hmerged) (hsorted.imp Nat.le_of_lt)

/-- The manifest lists the records in this order. -/
theorem Sound.inOrder_records (h : Sound x splits turns p) :
    inOrder p.records = p.jobs.filterMap Job.record? :=
  inOrder_of_perm h.records_perm h.pairwise_index

/-- Whether a turn sees a stop. -/
def Turn.seesStop : Turn σ → Bool
  | passed _ | interrupted _ _ => true
  | _ => false

/-- Where no stop is seen, all splits have ended when the workers have left. -/
theorem Sound.all_ended (h : Sound x splits turns p) (hdone : p.IsDone)
    (hstop : ∀ turn ∈ turns, turn.seesStop = false) :
    p.jobs.length = splits.length ∧
      ∀ i < splits.length, ∃ record, p.jobs[i]? = some (.ended record) := by
  obtain ⟨hidle, hover⟩ := hdone
  have hpassed : Job.passed ∉ p.jobs := by
    intro hmem
    obtain ⟨i, hi⟩ := List.mem_iff_getElem?.mp hmem
    exact absurd (hstop _ (h.passed_mem i hi)) (by simp [Turn.seesStop])
  have hall : splits.length ≤ p.queue.claims := by
    obtain hbusy | ⟨job, hjob, hbusy⟩ | hmem | hall := h.busy
    · omega
    · simp [hover job hjob] at hbusy
    · exact absurd hmem hpassed
    · exact hall
  have hlength : p.jobs.length = splits.length := by
    rw [h.length_jobs]
    omega
  refine ⟨hlength, fun i hi ↦ ?_⟩
  have hi' : i < p.jobs.length := by omega
  have hjob := hover _ (List.getElem_mem hi')
  rw [List.getElem?_eq_getElem hi']
  cases hended : p.jobs[i] with
  | ended record => exact ⟨record, rfl⟩
  | passed => exact absurd (hended ▸ List.getElem_mem hi') hpassed
  | held | between | asking | writing => simp [hended, Job.isOver] at hjob

/-- Values at all positions of a list that are the positions themselves. -/
private theorem filterMap_eq_range {α : Type} {f : α → Option Nat} {l : List α}
    (h : ∀ i a, l[i]? = some a → f a = some i) : l.filterMap f = List.range l.length := by
  have hmap : l.map f = (List.range l.length).map some := by
    refine List.ext_getElem (by simp) fun i hi _ ↦ ?_
    rw [List.length_map] at hi
    simpa using h i _ (List.getElem?_eq_getElem hi)
  have hid : l.filterMap f = (l.map f).filterMap id := by rw [List.filterMap_map]; rfl
  rw [hid, hmap, List.filterMap_map]
  exact List.filterMap_some

/-- Then there is one record of every split. -/
theorem Sound.map_index (h : Sound x splits turns p) (hdone : p.IsDone)
    (hstop : ∀ turn ∈ turns, turn.seesStop = false) :
    (inOrder p.records).map (·.index) = List.range splits.length := by
  obtain ⟨hlength, hended⟩ := h.all_ended hdone hstop
  rw [h.inOrder_records, List.map_filterMap, ← hlength]
  refine filterMap_eq_range fun i job hjob ↦ ?_
  obtain ⟨hlt, -⟩ := List.getElem?_eq_some_iff.mp hjob
  obtain ⟨record, hrecord⟩ := hended i (by omega)
  rw [hjob, Option.some.injEq] at hrecord
  subst hrecord
  simp [Job.record?, (h.ended hjob).1]

/-- To write the manifest, or to fail to, touches no page. -/
theorem conclude_changesOnly (x : Extraction σ) (m : Manifest) (s : Site σ) :
    ChangesOnly x.directory (· = Manifest.fileName) s.disk
      ((x.conclude m).run s).state.disk := by
  cases hwrite : s.disk.write x.manifestPath (Text.bytesOf m.text) with
  | error fault =>
    rw [run_conclude_of_error hwrite]
    exact .refl _
  | ok disk =>
    rw [run_conclude_of_ok hwrite]
    exact Disk.changesOnly_write Plan.isPlain_manifest hwrite

/-- Every record of the manifest tells how its split ended. -/
theorem Sound.reports (h : Sound x splits turns p)
    (hrecord : record ∈ (p.manifest x available s).splits) :
    ∃ split, splits[record.index]? = some split ∧
      Reports x (trail record.index turns) (p.result x available s).state.disk record.index split
        record := by
  have hmem : record ∈ p.jobs.filterMap Job.record? := h.inOrder_records ▸ hrecord
  obtain ⟨-, split, hsplit, hends⟩ := h.ended (h.mem_filterMap.mp hmem)
  refine ⟨split, hsplit, Ends.reports (hends.of_changesOnly (conclude_changesOnly x _ p.site) ?_)⟩
  intro n hname
  exact Plan.not_isPageName_manifest (.inl hname.symm)

/-- Every record that an extraction leaves, whatever number of workers takes turns in whatever
order, tells which pages of its split were asked for, which of them lie on the disk, and how the
split ended. There is one record of a split at most, in the order of the splits, and one of every
split where no stop is seen. A run that starts is an extraction by one worker. -/
theorem records_report (x : Extraction σ) (available : Nat) (splits : List Split) (s : Site σ) :
    (∀ workers turns p, 0 < workers → x.Conducts splits s workers turns p →
      let m := p.manifest x available s
      let r := p.result x available s
      (∀ record ∈ m.splits, ∃ split, splits[record.index]? = some split ∧
        Reports x (trail record.index turns) r.state.disk record.index split record) ∧
      m.splits.Pairwise (·.index < ·.index) ∧
      ((∀ turn ∈ turns, turn.seesStop = false) →
        m.splits.map (·.index) = List.range splits.length) ∧
      ∀ given, r.value = .ok given → given = m) ∧
    (x.Starts splits s →
      let r := (x.run available splits).run s
      ∃ turns p, x.Conducts splits s 1 turns p ∧ r.value = (p.result x available s).value ∧
        r.state = (p.result x available s).state ∧
        Event.effects r.trace = effectsOf x turns) := by
  refine ⟨fun workers turns p hworkers hconducts ↦ ?_,
    fun hstarts ↦ run_conducts hstarts available⟩
  have hsound := sound_of_works hworkers hconducts.works
  refine ⟨fun record hrecord ↦ hsound.reports hrecord, ?_, hsound.map_index hconducts.done, ?_⟩
  · rw [Pool.manifest, hsound.inOrder_records]
    exact hsound.pairwise_index
  · intro given hgiven
    exact (conclude_ok hgiven).1

/-- A peer that answers with the statuses of a list. -/
def answering : Peer (List Nat) where
  send _ := Act.step fun statuses ↦
    (.ok ⟨statuses.head?.getD 200, "", none, [52]⟩, statuses.tail)
  fetchToken := Act.step fun statuses ↦ (.ok "", statuses)

/-- An extraction from such a peer that is never stopped. -/
def unstopped : Extraction (List Nat) where
  service :=
    { endpoints := ⟨⟨"http".toList, none, .segments [], none, none⟩,
        ⟨"User", none, none, none, none, []⟩⟩
      peer := answering, credentials := .basic "" "", policy := .standard }
  outputDir := ""
  workers := 2
  watch := { isStopped := fun _ ↦ false, now := fun _ ↦ default }

/-- A site on which nothing has been done, with statuses to come. -/
def expecting (statuses : List Nat) : Site (List Nat) := ⟨⟨statuses, none⟩, ⟨[], []⟩⟩

/-- Two workers take turns; the split that fails ends first, and the other one is completed. -/
theorem records_report_twoWorkers :
    ∃ turns p, unstopped.Conducts [⟨1, 2, 1⟩, ⟨3, 3, 1⟩] (expecting [200, 404, 200]) 2 turns p ∧
      let m := p.manifest unstopped 3 (expecting [200, 404, 200])
      let r := p.result unstopped 3 (expecting [200, 404, 200])
      p.records = [⟨1, 3, 3, 1, 0, 0, .failed "unexpected HTTP 404 4 from data page"⟩,
          ⟨0, 1, 2, 1, 2, 2, .completed⟩] ∧
        m.splits.map (·.index) = List.range 2 ∧
        ∀ record ∈ m.splits, ∃ split, [(⟨1, 2, 1⟩ : Split), ⟨3, 3, 1⟩][record.index]? = some split ∧
          Reports unstopped (trail record.index turns) r.state.disk record.index split record := by
  have hstart := Works.refl (x := unstopped)
    (p := .start (unstopped.prepared (expecting [200, 404, 200])) [⟨1, 2, 1⟩, ⟨3, 3, 1⟩] 2)
  have hclaimed := (hstart.snoc (.claim (by decide) rfl)).snoc (.claim (by decide) rfl)
  have hbegun := (hclaimed.snoc (.advance (i := 0) rfl (.begin rfl))).snoc
    (.advance (i := 1) rfl (.begin rfl))
  have hasked := (hbegun.snoc
    (.advance (i := 0)
      (show _ = some (.between (startRecord 0 ⟨1, 2, 1⟩) [⟨0, 1⟩, ⟨1, 1⟩]) from rfl)
      (.ask rfl))).snoc
    (.advance (i := 1) (show _ = some (.between (startRecord 1 ⟨3, 3, 1⟩) [⟨2, 1⟩]) from rfl)
      (.ask rfl))
  have hgranted := hasked.snoc (.advance (i := 0) rfl
    (.grant (show _ = Except.ok ⟨200, "", none, [52]⟩ from by decide +kernel)))
  have hrefused := hgranted.snoc (.advance (i := 1) rfl
    (.refuse (e := .unexpectedStatus "data page" 404 "4") (by decide +kernel)))
  have hsaved := hrefused.snoc (.advance (i := 0) rfl (.save (by decide +kernel)))
  have hgranted' := (hsaved.snoc (.advance (i := 0) rfl (.ask rfl))).snoc (.advance (i := 0) rfl
    (.grant (show _ = Except.ok ⟨200, "", none, [52]⟩ from by decide +kernel)))
  have hended := (hgranted'.snoc (.advance (i := 0) rfl (.save (by decide +kernel)))).snoc
    (.advance (i := 0) rfl .finish)
  have hleft := (hended.snoc (.retire (by decide) rfl)).snoc (.retire (by decide) rfl)
  have hconducts : unstopped.Conducts [⟨1, 2, 1⟩, ⟨3, 3, 1⟩] (expecting [200, 404, 200]) 2 _ _ :=
    ⟨by decide +kernel, hleft, by decide, by decide⟩
  obtain ⟨hreports, -, hindex, -⟩ :=
    (records_report unstopped 3 [⟨1, 2, 1⟩, ⟨3, 3, 1⟩] (expecting [200, 404, 200])).1 2 _ _
      (by decide) hconducts
  exact ⟨_, _, hconducts, by decide +kernel, hindex (by decide), hreports⟩

end Harvest.Extraction

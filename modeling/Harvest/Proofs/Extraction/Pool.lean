import Harvest.Proofs.Extraction.Pages

/-!
# Pools of workers

The splits of an extraction are shared by workers that take turns in any order. A worker that holds
no split claims the next one from the queue, or leaves where there is none; behind a stop it leaves
too. A turn is one claim, one look, one call for a page or one page that is written, so a stop may
come and other workers may go on between any two of them. To fetch the splits one after the other,
as `Extraction.run` does, is what a single worker does.
Design: `SPEC_FULL.md:264–267`.
-/

namespace Harvest

namespace Extraction

open Manifest (Record)
open Plan (Page Split)

variable {σ : Type}

/-! ## Turns -/

/-- How far a split has come that a worker has claimed. -/
inductive Job where
  /-- Not taken up yet. -/
  | held (split : Split)
  /-- Given up, since a stop was seen before it was taken up. -/
  | passed
  /-- Before the first of the pages that are left. -/
  | between (record : Record) (pages : List Page)
  /-- About to ask for a page, behind a look that found no stop. -/
  | asking (record : Record) (page : Page) (pages : List Page)
  /-- About to write a page. -/
  | writing (record : Record) (pages : List Page) (body : Text.Bytes)
  | ended (record : Record)

/-- The record of a split that has ended. -/
def Job.record? : Job → Option Record
  | ended record => some record
  | _ => none

/-- Whether no worker is on a split any more. -/
def Job.isOver : Job → Bool
  | passed | ended _ => true
  | _ => false

/-- The turns that workers take. For a call the turn tells in which world it is made. -/
inductive Turn (σ : Type) where
  | claimed (index : Nat)
  | retired
  | passed (index : Nat)
  | begun (index : Nat)
  | interrupted (index number : Nat)
  | asked (index number : Nat)
  | fetched (index : Nat) (page : Page) (world : World σ)
  | written (index number : Nat) (outcome : Except Service.Error Unit)
  | ended (index : Nat)

/-- The split that a turn is about. -/
def Turn.index? : Turn σ → Option Nat
  | retired => none
  | claimed index | passed index | begun index | interrupted index _ | asked index _
  | fetched index _ _ | written index _ _ | ended index => some index

/-- What a turn leaves in the trace, but for reports. -/
def Turn.trace (x : Extraction σ) : Turn σ → List Event
  | fetched _ page world => ((x.service.fetchPage page).run world).trace
  | _ => []

/-- What a turn of the worker on split `i` makes of it, and of the site. -/
inductive Advances (x : Extraction σ) (s : Site σ) (i : Nat) : Job → Turn σ → Job → Site σ → Prop
  | pass {split : Split} (h : x.stops s = true) :
      Advances x s i (.held split) (.passed i) .passed (x.looked s)
  | begin {split : Split} (h : x.stops s = false) :
      Advances x s i (.held split) (.begun i) (.between (startRecord i split) split.pages)
        (x.looked s)
  | interrupt {record : Record} {page : Page} {pages : List Page} (h : x.stops s = true) :
      Advances x s i (.between record (page :: pages)) (.interrupted i record.pages)
        (.ended { record with outcome := .interrupted }) (x.looked s)
  | ask {record : Record} {page : Page} {pages : List Page} (h : x.stops s = false) :
      Advances x s i (.between record (page :: pages)) (.asked i record.pages)
        (.asking record page pages) (x.looked s)
  | refuse {record : Record} {page : Page} {pages : List Page} {e : Service.Error}
      (h : ((x.service.fetchPage page).run s.world).value = .error e) :
      Advances x s i (.asking record page pages) (.fetched i page s.world)
        (.ended { record with outcome := .failed e.message })
        { s with world := ((x.service.fetchPage page).run s.world).state }
  | grant {record : Record} {page : Page} {pages : List Page} {response : Http.Response}
      (h : ((x.service.fetchPage page).run s.world).value = .ok response) :
      Advances x s i (.asking record page pages) (.fetched i page s.world)
        (.writing record pages response.body)
        { s with world := ((x.service.fetchPage page).run s.world).state }
  | spoil {record : Record} {pages : List Page} {body : Text.Bytes} {e : Service.Error}
      (h : ((writePage x.directory i record.pages body).run s).value = .error e) :
      Advances x s i (.writing record pages body) (.written i record.pages (.error e))
        (.ended { record with outcome := .failed e.message })
        ((writePage x.directory i record.pages body).run s).state
  | save {record : Record} {pages : List Page} {body : Text.Bytes}
      (h : ((writePage x.directory i record.pages body).run s).value = .ok ()) :
      Advances x s i (.writing record pages body) (.written i record.pages (.ok ()))
        (.between (countPage record body.length) pages)
        ((writePage x.directory i record.pages body).run s).state
  | finish {record : Record} :
      Advances x s i (.between record []) (.ended i) (.ended record) s

/-- Workers at their splits. -/
structure Pool (σ : Type) where
  site : Site σ
  queue : Queue Split
  /-- The workers that have not left and hold no split. -/
  idle : Nat
  /-- The splits that have been claimed, by their positions. -/
  jobs : List Job
  /-- The records, in the order in which the splits ended. -/
  records : List Record

namespace Pool

/-- Workers before their first turns. -/
def start (s : Site σ) (splits : List Split) (workers : Nat) : Pool σ :=
  ⟨s, .ofList splits, workers, [], []⟩

/-- A worker that holds no split has turned to the queue: it holds the split that it is handed, or
leaves where there is none. -/
def claim (p : Pool σ) : Pool σ :=
  { p with
    queue := p.queue.next.2
    idle := p.idle - 1
    jobs := p.jobs ++ (p.queue.next.1.map fun claimed ↦ Job.held claimed.2).toList }

/-- What a split has come to; a worker that ends it holds none again. -/
def put (p : Pool σ) (i : Nat) (job : Job) (site : Site σ) : Pool σ :=
  { p with
    site
    idle := p.idle + job.record?.toList.length
    jobs := p.jobs.set i job
    records := p.records ++ job.record?.toList }

/-- Whether all workers have left. -/
def IsDone (p : Pool σ) : Prop := p.idle = 0 ∧ ∀ job ∈ p.jobs, job.isOver = true

end Pool

/-- One turn of a pool. -/
inductive Takes (x : Extraction σ) (p : Pool σ) : Turn σ → Pool σ → Prop
  | claim {index : Nat} {split : Split} (hidle : 0 < p.idle)
      (h : p.queue.next.1 = some (index, split)) : Takes x p (.claimed index) p.claim
  | retire (hidle : 0 < p.idle) (h : p.queue.next.1 = none) : Takes x p .retired p.claim
  | advance {i : Nat} {job job' : Job} {turn : Turn σ} {site : Site σ}
      (h : p.jobs[i]? = some job) (hadvances : Advances x p.site i job turn job' site) :
      Takes x p turn (p.put i job' site)

/-- Turns that a pool takes one after another. -/
inductive Works (x : Extraction σ) (p : Pool σ) : List (Turn σ) → Pool σ → Prop
  | refl : Works x p [] p
  | snoc {turns : List (Turn σ)} {turn : Turn σ} {q r : Pool σ} (hworks : Works x p turns q)
      (htakes : Takes x q turn r) : Works x p (turns ++ [turn]) r

variable {x : Extraction σ} {p q r : Pool σ} {turns turns' : List (Turn σ)}

private theorem Works.trans (h : Works x p turns q) (k : Works x q turns' r) :
    Works x p (turns ++ turns') r := by
  induction k with
  | refl => rwa [List.append_nil]
  | snoc hworks htakes ih =>
    rw [← List.append_assoc]
    exact ih.snoc htakes

private theorem Takes.works {turn : Turn σ} (h : Takes x p turn q) : Works x p [turn] q :=
  Works.refl.snoc h

namespace Pool

/-- The site is where the worker has left it. -/
@[simp] theorem site_put (p : Pool σ) (i : Nat) (job : Job) (site : Site σ) :
    (p.put i job site).site = site := rfl

/-- A split is where its worker has brought it. -/
theorem getElem?_put {i : Nat} (job : Job) (site : Site σ) (h : i < p.jobs.length) :
    (p.put i job site).jobs[i]? = some job := by
  simp [put, h]

/-- Only the last of two states of a split counts, where it has not ended in the first. -/
theorem put_put {i : Nat} (job : Job) {job' : Job} {site site' : Site σ}
    (h : job.record? = none) :
    (p.put i job site).put i job' site' = p.put i job' site' := by
  simp [put, h]

end Pool

/-! ## A single worker -/

/-- The effects of turns. -/
def effectsOf (x : Extraction σ) (turns : List (Turn σ)) : List Event :=
  turns.flatMap fun turn ↦ Event.effects (turn.trace x)

private theorem effectsOf_append (x : Extraction σ) (turns turns' : List (Turn σ)) :
    effectsOf x (turns ++ turns') = effectsOf x turns ++ effectsOf x turns' :=
  List.flatMap_append

/-- Writing a page leaves no trace. -/
theorem trace_writePage {dir : String} {split number : Nat} {body : Text.Bytes} (s : Site σ) :
    ((writePage dir split number body).run s).trace = [] := by
  rw [run_writePage]
  split
  · rfl
  · split <;> rfl

/-- A worker that asks for a page saves it, or ends its split. -/
theorem savePage_works {record : Record} {page : Page} {pages : List Page}
    (h : p.jobs[record.index]? = some (.asking record page pages)) :
    let r := (x.savePage record.index record.pages page).run p.site
    ∃ turns, Event.effects r.trace = effectsOf x turns ∧
      match r.value with
      | .error e => Works x p turns
          (p.put record.index (.ended { record with outcome := .failed e.message }) r.state)
      | .ok bytes => Works x p turns
          (p.put record.index (.between (countPage record bytes) pages) r.state) := by
  have hlt : record.index < p.jobs.length := (List.getElem?_eq_some_iff.mp h).1
  cases hfetch : ((x.service.fetchPage page).run p.site.world).value with
  | error e =>
    rw [run_savePage_of_error hfetch]
    refine ⟨_, ?_, (Takes.advance h (.refuse hfetch)).works⟩
    simp [effectsOf, Turn.trace]
  | ok response =>
    simp only [run_savePage_of_ok hfetch, Event.effects_append, trace_writePage]
    have hgrant := (Takes.advance h (.grant hfetch)).works
    generalize ({ p.site with world := ((x.service.fetchPage page).run p.site.world).state } :
      Site σ) = granted at hgrant ⊢
    have hjob := Pool.getElem?_put (.writing record pages response.body) granted hlt
    cases hwrite : ((writePage x.directory record.index record.pages response.body).run
        granted).value with
    | error e =>
      have hspoil := (Takes.advance hjob (.spoil hwrite)).works
      rw [Pool.put_put _ rfl] at hspoil
      refine ⟨_, ?_, hgrant.trans hspoil⟩
      simp [effectsOf, Turn.trace, Event.effects]
    | ok =>
      have hsave := (Takes.advance hjob (.save hwrite)).works
      rw [Pool.put_put _ rfl] at hsave
      refine ⟨_, ?_, hgrant.trans hsave⟩
      simp [effectsOf, Turn.trace, Event.effects]

/-- A worker on a split fetches the rest of its pages. -/
theorem fetchPages_works {record : Record} {pages : List Page}
    (h : p.jobs[record.index]? = some (.between record pages)) :
    let r := (x.fetchPages record pages).run p.site
    ∃ turns, Event.effects r.trace = effectsOf x turns ∧
      Works x p turns (p.put record.index (.ended r.value) r.state) := by
  induction pages generalizing record p with
  | nil => exact ⟨_, rfl, (Takes.advance h .finish).works⟩
  | cons page pages ih =>
    have hlt : record.index < p.jobs.length := (List.getElem?_eq_some_iff.mp h).1
    cases hstop : x.stops p.site with
    | true =>
      rw [fetchPages_of_stops hstop]
      exact ⟨_, rfl, (Takes.advance h (.interrupt hstop)).works⟩
    | false =>
      have hask := (Takes.advance h (.ask hstop)).works
      obtain ⟨turns, heffects, hsaved⟩ := savePage_works (x := x)
        (Pool.getElem?_put (.asking record page pages) (x.looked p.site) hlt)
      rw [Pool.site_put] at heffects hsaved
      cases hsave : ((x.savePage record.index record.pages page).run (x.looked p.site)).value with
      | error e =>
        rw [fetchPages_of_error hstop hsave]
        simp only [hsave, Pool.put_put (.asking record page pages) rfl] at hsaved
        refine ⟨_, ?_, hask.trans hsaved⟩
        rw [Event.effects_append, heffects, effectsOf_append]
        simp [effectsOf, Turn.trace, fail, Act.run_bind, Event.effects]
      | ok bytes =>
        rw [fetchPages_of_ok hstop hsave]
        simp only [hsave, Pool.put_put (.asking record page pages) rfl] at hsaved
        generalize (x.savePage record.index record.pages page).run (x.looked p.site) = saved at *
        have hbetween : (p.put record.index (.between (countPage record bytes) pages)
            saved.state).jobs[(countPage record bytes).index]? =
              some (.between (countPage record bytes) pages) := Pool.getElem?_put _ _ hlt
        obtain ⟨turns', heffects', hrest⟩ := ih hbetween
        have hindex : (countPage record bytes).index = record.index := rfl
        rw [hindex, Pool.put_put _ rfl] at hrest
        refine ⟨_, ?_, (hask.trans hsaved).trans hrest⟩
        rw [effectsOf_append, effectsOf_append, ← heffects, ← heffects', Event.effects_append]
        rfl

namespace Pool

variable {index : Nat} {split : Split}

/-- A split that is handed out is held by one of the idle workers. -/
theorem claim_of_some (h : p.queue.next.1 = some (index, split)) :
    p.claim = ⟨p.site, p.queue.next.2, p.idle - 1, p.jobs ++ [.held split], p.records⟩ := by
  simp [claim, h]

/-- A worker that is handed nothing leaves. -/
theorem claim_of_none (h : p.queue.next.1 = none) :
    p.claim = ⟨p.site, p.queue.next.2, p.idle - 1, p.jobs, p.records⟩ := by
  simp [claim, h]

/-- A split that has been claimed is behind the others. -/
theorem getElem?_claim (h : p.queue.next.1 = some (index, split)) (hindex : p.jobs.length = index) :
    p.claim.jobs[index]? = some (.held split) := by
  rw [claim_of_some h, ← hindex]
  exact List.getElem?_concat_length

private theorem put_claim {job : Job} {site : Site σ} (h : p.queue.next.1 = some (index, split))
    (hindex : p.jobs.length = index) : p.claim.put index job site =
      ⟨site, p.queue.next.2, p.idle - 1 + job.record?.toList.length, p.jobs ++ [job],
        p.records ++ job.record?.toList⟩ := by
  simp [claim_of_some h, put, ← hindex]

end Pool

/-- A worker that has claimed a split and sees no stop fetches it. -/
theorem fetchSplit_works {index : Nat} {split : Split} (hidle : 0 < p.idle)
    (hclaim : p.queue.next.1 = some (index, split)) (hindex : p.jobs.length = index)
    (hstop : x.stops p.site = false) :
    let r := (x.fetchSplit index split).run (x.looked p.site)
    ∃ turns, Event.effects r.trace = effectsOf x turns ∧
      Works x p turns
        ⟨r.state, p.queue.next.2, p.idle, p.jobs ++ [.ended r.value], p.records ++ [r.value]⟩ := by
  have hheld := Pool.getElem?_claim hclaim hindex
  have hlt : index < p.claim.jobs.length := (List.getElem?_eq_some_iff.mp hheld).1
  have hclaimed := (Takes.claim (x := x) hidle hclaim).works
  have hbegun := (Takes.advance (x := x) hheld (.begin hstop)).works
  have hbetween : (p.claim.put index (.between (startRecord index split) split.pages)
      (x.looked p.site)).jobs[(startRecord index split).index]? =
        some (.between (startRecord index split) split.pages) := Pool.getElem?_put _ _ hlt
  obtain ⟨turns, heffects, hfetched⟩ := fetchPages_works (x := x) hbetween
  have hindex' : (startRecord index split).index = index := rfl
  rw [Pool.site_put] at heffects hfetched
  rw [hindex', Pool.put_put _ rfl] at hfetched
  have hall := (hclaimed.trans hbegun).trans hfetched
  rw [Pool.put_claim hclaim hindex] at hall
  simp only [Job.record?, Option.toList_some, List.length_singleton,
    Nat.sub_add_cancel hidle] at hall
  refine ⟨_, ?_, hall⟩
  have hnothing : effectsOf x [.claimed index, .begun index] = [] := rfl
  rw [List.singleton_append, effectsOf_append, hnothing, List.nil_append, ← heffects]
  rfl

/-- A worker alone fetches the splits that it claims, one after the other. -/
theorem fetchSplits_works (hidle : p.idle = 1) (hindex : p.jobs.length = p.queue.claims)
    (hover : ∀ job ∈ p.jobs, job.isOver = true) :
    let r := (x.fetchSplits p.queue.waiting).run p.site
    ∃ turns q, Event.effects r.trace = effectsOf x turns ∧ Works x p turns q ∧ q.IsDone ∧
      q.site = r.state ∧ q.records = p.records ++ r.value := by
  generalize hn : p.queue.remaining = n
  induction n generalizing p with
  | zero =>
    have hnone : p.queue.next.1 = none := Queue.next_eq_none_iff.mpr hn
    have hempty : p.queue.waiting = [] := by rw [Queue.waiting, hn]; rfl
    rw [hempty]
    refine ⟨_, _, rfl, (Takes.retire (by omega) hnone).works, ?_, ?_⟩
    · rw [Pool.claim_of_none hnone]
      exact ⟨by simp [hidle], hover⟩
    · simp [Pool.claim_of_none hnone, fetchSplits]
  | succ n ih =>
    have hsome : p.queue.next.1 ≠ none := by simp [Queue.next_eq_none_iff, hn]
    obtain ⟨⟨index, split⟩, hclaim⟩ := Option.ne_none_iff_exists'.mp hsome
    obtain ⟨hwaiting, hremaining, hclaims⟩ := Queue.waiting_of_next hclaim
    have hjob : p.jobs.length = index := hindex.trans hclaims.symm
    rw [hwaiting]
    cases hstop : x.stops p.site with
    | true =>
      rw [fetchSplits_of_stops hstop]
      have hheld := Pool.getElem?_claim hclaim hjob
      have hpassed := (Takes.advance (x := x) hheld (.pass hstop)).works
      refine ⟨_, _, rfl, (Takes.claim (by omega) hclaim).works.trans hpassed, ?_, ?_⟩
      · rw [Pool.put_claim hclaim hjob]
        refine ⟨by simp [hidle, Job.record?], ?_⟩
        simpa [Job.isOver, or_imp, forall_and] using hover
      · rw [Pool.put_claim hclaim hjob, Pool.claim_of_some hclaim]
        simp [Job.record?]
    | false =>
      rw [fetchSplits_of_not_stops hstop]
      obtain ⟨turns, heffects, hfirst⟩ :=
        fetchSplit_works (x := x) (by omega) hclaim hjob hstop
      generalize (x.fetchSplit index split).run (x.looked p.site) = first at heffects hfirst ⊢
      obtain ⟨turns', q, heffects', hrest, hdone, hsite, hrecords⟩ := ih
        (p := ⟨first.state, p.queue.next.2, p.idle, p.jobs ++ [.ended first.value],
          p.records ++ [first.value]⟩) hidle (by simpa [Queue.next] using hindex)
        (by simpa [Job.isOver, or_imp, forall_and] using hover) (by simp only; omega)
      refine ⟨_, q, ?_, hfirst.trans hrest, hdone, hsite, ?_⟩
      · rw [Event.effects_append, effectsOf_append, heffects, heffects']
      · simp [hrecords]

/-! ## Whole extractions -/

/-- An extraction by a number of workers: the directory has been prepared, and the workers, wherever
they come from, have taken turns until all of them had left. -/
structure Conducts (x : Extraction σ) (splits : List Split) (s : Site σ) (workers : Nat)
    (turns : List (Turn σ)) (p : Pool σ) : Prop where
  prepares : (x.prepare.run s).value = .ok ()
  works : Works x (.start (x.prepared s) splits workers) turns p
  done : p.IsDone

/-- The manifest of what workers have done. -/
def Pool.manifest (x : Extraction σ) (available : Nat) (s : Site σ) (p : Pool σ) : Manifest where
  entity := x.entity
  baseUrl := x.service.baseText
  available := available
  splits := inOrder p.records
  started := x.watch.now (x.prepared s).world.peer
  finished := x.watch.now p.site.world.peer

/-- What an extraction comes to when the workers have left: the manifest is written. -/
def Pool.result (x : Extraction σ) (available : Nat) (s : Site σ) (p : Pool σ) :
    Act.Result (Site σ) (Except Service.Error Manifest) :=
  (x.conclude (p.manifest x available s)).run p.site

section

variable {m : Manifest} {s : Site σ}

/-- A manifest that cannot be written is none. -/
theorem run_conclude_of_error {fault : Disk.Fault}
    (h : s.disk.write x.manifestPath (Text.bytesOf m.text) = .error fault) :
    (x.conclude m).run s = ⟨.error (.io fault.message), [], s⟩ := by
  have hrun : (onDisk (·.write x.manifestPath (Text.bytesOf m.text))).run s =
      ⟨.error (.io fault.message), [], s⟩ := run_onDisk_error h
  simp [conclude, Act.run_bind, hrun]

/-- A manifest that is written is given. -/
theorem run_conclude_of_ok {disk : Disk}
    (h : s.disk.write x.manifestPath (Text.bytesOf m.text) = .ok disk) :
    (x.conclude m).run s =
      ⟨.ok m, [.log ⟨.info, .extraction, closingText m⟩], { s with disk }⟩ := by
  have hrun : (onDisk (·.write x.manifestPath (Text.bytesOf m.text))).run s =
      ⟨.ok (), [], { s with disk }⟩ := run_onDisk_ok h
  simp [conclude, Act.run_bind, hrun]

/-- Nothing but reports is left in the trace when a manifest is written. -/
private theorem effects_conclude (x : Extraction σ) (m : Manifest) (s : Site σ) :
    Event.effects ((x.conclude m).run s).trace = [] := by
  cases hwrite : s.disk.write x.manifestPath (Text.bytesOf m.text) with
  | error fault => rw [run_conclude_of_error hwrite]; rfl
  | ok disk => rw [run_conclude_of_ok hwrite]; rfl

end

/-- Before its manifest is written, an extraction whose pool can be built leaves what its splits
leave. -/
theorem effects_extract {splits : List Split}
    (h : x.buildPool (x.usefulWorkers splits.length) = .ok ()) (available : Nat) (s : Site σ) :
    Event.effects ((x.extract available (Queue.ofList splits)).run s).trace =
      Event.effects ((x.fetchSplits (Queue.ofList splits).waiting).run s).trace := by
  rw [← Queue.total_ofList splits] at h
  simp only [extract, h, Act.run_bind, run_now, Act.run_report, List.nil_append,
    Event.effects_append, effects_conclude, List.append_nil]
  rfl

/-- A run that starts is an extraction by one worker. -/
theorem run_conducts {splits : List Split} {s : Site σ} (h : x.Starts splits s) (available : Nat) :
    let r := (x.run available splits).run s
    ∃ turns p, x.Conducts splits s 1 turns p ∧ r.value = (p.result x available s).value ∧
      r.state = (p.result x available s).state ∧ Event.effects r.trace = effectsOf x turns := by
  have hfetched : (x.fetchSplits (Pool.start (x.prepared s) splits 1).queue.waiting).run
      (Pool.start (x.prepared s) splits 1).site = x.fetched splits s := rfl
  obtain ⟨turns, p, heffects, hworks, hdone, hsite, hrecords⟩ := fetchSplits_works (x := x)
    (p := .start (x.prepared s) splits 1) rfl rfl (by simp [Pool.start])
  rw [hfetched] at heffects hsite hrecords
  have hnone : (Pool.start (x.prepared s) splits 1).records = [] := rfl
  rw [hnone, List.nil_append] at hrecords
  have hmanifest : x.manifest available splits s = p.manifest x available s := by
    rw [manifest, Pool.manifest, hsite, hrecords]
  have hresult : (x.conclude (x.manifest available splits s)).run (x.fetched splits s).state =
      p.result x available s := by
    rw [hmanifest, Pool.result, hsite]
  obtain ⟨hvalue, hstate⟩ := run_extract h.builds available s
  rw [hresult] at hvalue hstate
  rw [run_of_prepared h.prepares]
  refine ⟨turns, p, ⟨h.prepares, hworks, hdone⟩, hvalue, hstate, ?_⟩
  rw [effects_extract h.builds, ← heffects]
  rfl

end Extraction

end Harvest

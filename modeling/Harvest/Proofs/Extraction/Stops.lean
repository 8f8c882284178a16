import Harvest.Proofs.Extraction.Completeness
import Harvest.Proofs.Extraction.Outcomes
import Harvest.Proofs.Transport.Keeps

/-!
# What a stop cuts off

A stop that is made while a page is in flight is seen by the next look and by all looks behind it.
A run that is stopped is compared with the same run heeding no stop: up to the page they are the
same, the page itself is fetched and written to the end, and nothing behind it is taken up.
Design: `SPEC_FULL.md:146–148,269`.
-/

namespace Harvest.Extraction

open Disk (ChangesOnly)
open Manifest (Record)
open Plan (IsPageName Page Split)

variable {σ : Type} {x : Extraction σ} {s : Site σ} {splits : List Split} {split : Split}
  {record : Record} {page : Page} {pages first rest : List Page} {index i n available : Nat}
  {claimed later : List (Nat × Split)}

/-! ## One part behind another -/

/-- Splits that are all taken up are followed by those behind them. -/
theorem fetchSplits_append
    (h : ((x.fetchSplits claimed).run s).value.length = claimed.length)
    (later : List (Nat × Split)) :
    (x.fetchSplits (claimed ++ later)).run s =
      let before := (x.fetchSplits claimed).run s
      let behind := (x.fetchSplits later).run before.state
      ⟨before.value ++ behind.value, before.trace ++ behind.trace, behind.state⟩ := by
  induction claimed generalizing s with
  | nil => rfl
  | cons c claimed ih =>
    cases hstop : x.stops s with
    | true =>
      rw [fetchSplits_of_stops hstop] at h
      simp at h
    | false =>
      rw [fetchSplits_of_not_stops hstop] at h
      have hrest := ih (Nat.succ.inj h)
      rw [List.cons_append, fetchSplits_of_not_stops hstop, fetchSplits_of_not_stops hstop]
      simp only [hrest, List.cons_append, List.append_assoc]

/-- Pages that are all saved are followed by those behind them. -/
theorem fetchPages_append
    (h : ((x.fetchPages record first).run s).value.pages = record.pages + first.length)
    (rest : List Page) :
    let before := (x.fetchPages record first).run s
    let behind := (x.fetchPages before.value rest).run before.state
    let r := (x.fetchPages record (first ++ rest)).run s
    r.value = behind.value ∧ r.state = behind.state ∧
      Event.effects r.trace = Event.effects before.trace ++ Event.effects behind.trace := by
  induction first generalizing record s with
  | nil => exact ⟨rfl, rfl, rfl⟩
  | cons page first ih =>
    cases hstop : x.stops s with
    | true =>
      rw [fetchPages_of_stops hstop] at h
      simp [interrupt, Act.run_bind] at h
    | false =>
      cases hsave : ((x.savePage record.index record.pages page).run (x.looked s)).value with
      | error e =>
        rw [fetchPages_of_error hstop hsave] at h
        simp [fail, Act.run_bind] at h
      | ok bytes =>
        rw [List.cons_append, fetchPages_of_ok hstop hsave, fetchPages_of_ok hstop hsave]
        rw [fetchPages_of_ok hstop hsave] at h
        generalize (x.savePage record.index record.pages page).run (x.looked s) = saved at h ⊢
        have hsaved : ((x.fetchPages (countPage record bytes) first).run saved.state).value.pages =
            (countPage record bytes).pages + first.length := by
          simp only [countPage, List.length_cons] at h ⊢
          omega
        obtain ⟨hvalue, hstate, heffects⟩ := ih hsaved
        refine ⟨hvalue, hstate, ?_⟩
        simp only [Event.effects_append, heffects, List.append_assoc]

/-! ## Heeding no stop -/

/-- An extraction that heeds no stop. -/
def heedless (x : Extraction σ) : Extraction σ :=
  { x with watch := { x.watch with isStopped := fun _ ↦ false } }

/-- To heed no stop does not change what a look does to the peer. -/
@[simp] theorem looked_heedless (x : Extraction σ) (s : Site σ) :
    x.heedless.looked s = x.looked s := rfl

/-- A page is saved in the same way whether stops are heeded or not. -/
@[simp] theorem savePage_heedless (x : Extraction σ) : x.heedless.savePage = x.savePage := rfl

/-- Where no stop is heeded none is seen. -/
@[simp] theorem stops_heedless (x : Extraction σ) (s : Site σ) : x.heedless.stops s = false := rfl

/-- All splits are taken up where no stop is heeded. -/
theorem length_fetchSplits_heedless (x : Extraction σ) (claimed : List (Nat × Split))
    (s : Site σ) : ((x.heedless.fetchSplits claimed).run s).value.length = claimed.length := by
  induction claimed generalizing s with
  | nil => rfl
  | cons c claimed ih =>
    rw [fetchSplits_of_not_stops (stops_heedless x s)]
    exact congrArg Nat.succ (ih _)

/-- Whether the stop is made at a site. -/
def isSet (x : Extraction σ) (s : Site σ) : Bool := x.watch.isStopped s.world.peer

/-- A stop that is made is not taken back, neither while the peer is waited for nor while pages are
fetched. -/
structure Latches (x : Extraction σ) : Prop where
  wait : ∀ peer, x.watch.isStopped peer = true → x.watch.isStopped (x.watch.wait peer) = true
  fetch : ∀ page world, x.watch.isStopped world.peer = true →
    x.watch.isStopped ((x.service.fetchPage page).run world).state.peer = true

/-- A stop is not taken back where neither the peer nor waiting for it takes it back. -/
theorem latches_of_keeps
    (hwait : ∀ peer, x.watch.isStopped peer = true → x.watch.isStopped (x.watch.wait peer) = true)
    (hpeer : x.service.peer.Keeps fun peer ↦ x.watch.isStopped peer = true) : x.Latches :=
  ⟨hwait, fun page world h ↦ hpeer.fetchPage page world h⟩

/-- Writing a page does nothing to the world. -/
theorem world_writePage {dir : String} {number : Nat} {body : Text.Bytes} (s : Site σ) :
    ((writePage dir index number body).run s).state.world = s.world := by
  rw [run_writePage]
  split
  · rfl
  · split <;> rfl

/-- Saving a page does to the world what asking for it does, and leaves what that leaves. -/
theorem run_savePage_world (x : Extraction σ) (index number : Nat) (page : Page) (s : Site σ) :
    let saved := (x.savePage index number page).run s
    let fetched := (x.service.fetchPage page).run s.world
    saved.state.world = fetched.state ∧ saved.trace = fetched.trace := by
  cases hfetch : ((x.service.fetchPage page).run s.world).value with
  | error e =>
    rw [run_savePage_of_error hfetch]
    exact ⟨rfl, rfl⟩
  | ok response =>
    simp only [run_savePage_of_ok hfetch, world_writePage, trace_writePage, List.append_nil,
      and_self]

/-- What implies something false is false. -/
theorem eq_false_of_imp {a b : Bool} (h : a = true → b = true) (hb : b = false) :
    a = false := by
  cases a with
  | false => rfl
  | true => exact absurd (h rfl) (by simp [hb])

namespace Latches

/-- A stop that is set stays set during a look. -/
theorem isSet_looked (hx : x.Latches) (h : x.isSet s = true) : x.isSet (x.looked s) = true :=
  hx.wait _ h

private theorem isSet_savePage (hx : x.Latches) {number : Nat} (h : x.isSet s = true) :
    x.isSet ((x.savePage index number page).run s).state = true := by
  rw [isSet, (x.run_savePage_world index number page s).1]
  exact hx.fetch page s.world h

private theorem isSet_fetchPages_cons (hx : x.Latches)
    (hrest : ∀ record s, x.isSet s = true →
      x.isSet ((x.heedless.fetchPages record pages).run s).state = true)
    (h : x.isSet (x.looked s) = true) :
    x.isSet ((x.heedless.fetchPages record (page :: pages)).run s).state = true := by
  have hsaved : x.isSet ((x.heedless.savePage record.index record.pages page).run
      (x.heedless.looked s)).state = true := hx.isSet_savePage h
  cases hsave : ((x.heedless.savePage record.index record.pages page).run
      (x.heedless.looked s)).value with
  | error e =>
    rw [fetchPages_of_error (stops_heedless x s) hsave]
    exact hsaved
  | ok bytes =>
    rw [fetchPages_of_ok (stops_heedless x s) hsave]
    exact hrest _ _ hsaved

/-- A stop that is set stays set while pages are fetched. -/
theorem isSet_fetchPages (hx : x.Latches) (record : Record) (pages : List Page) (s : Site σ)
    (h : x.isSet s = true) :
    x.isSet ((x.heedless.fetchPages record pages).run s).state = true := by
  induction pages generalizing record s with
  | nil => exact h
  | cons page pages ih => exact hx.isSet_fetchPages_cons ih (hx.isSet_looked h)

private theorem isSet_fetchSplit (hx : x.Latches) (h : x.isSet s = true) :
    x.isSet ((x.heedless.fetchSplit index split).run s).state = true :=
  hx.isSet_fetchPages (startRecord index split) split.pages s h

private theorem isSet_fetchSplits (hx : x.Latches) (h : x.isSet s = true) :
    x.isSet ((x.heedless.fetchSplits claimed).run s).state = true := by
  induction claimed generalizing s with
  | nil => exact h
  | cons c claimed ih =>
    rw [fetchSplits_of_not_stops (stops_heedless x s)]
    exact ih (hx.isSet_fetchSplit (hx.isSet_looked h))

/-- Where the stop is not made while the rest of a split is fetched, to heed it makes no
difference. -/
theorem fetchPages_eq (hx : x.Latches)
    (h : x.isSet ((x.heedless.fetchPages record pages).run s).state = false) :
    (x.fetchPages record pages).run s = (x.heedless.fetchPages record pages).run s := by
  induction pages generalizing record s with
  | nil => rfl
  | cons page pages ih =>
    cases hstop : x.stops s with
    | true =>
      rw [hx.isSet_fetchPages_cons (hx.isSet_fetchPages · pages) hstop] at h
      contradiction
    | false =>
      cases hsave : ((x.savePage record.index record.pages page).run (x.looked s)).value with
      | error e =>
        rw [fetchPages_of_error hstop hsave, fetchPages_of_error (stops_heedless x s) hsave]
        rfl
      | ok bytes =>
        rw [fetchPages_of_ok (x := x.heedless) (stops_heedless x s) hsave] at h ⊢
        have hrest := ih h
        rw [fetchPages_of_ok hstop hsave]
        simp only [savePage_heedless, looked_heedless] at hrest ⊢
        rw [hrest]

private theorem fetchSplit_eq (hx : x.Latches)
    (h : x.isSet ((x.heedless.fetchSplit index split).run s).state = false) :
    (x.fetchSplit index split).run s = (x.heedless.fetchSplit index split).run s := by
  have hpages : (x.fetchPages (startRecord index split) split.pages).run s =
      (x.heedless.fetchPages (startRecord index split) split.pages).run s := hx.fetchPages_eq h
  simp only [fetchSplit, Act.run_bind, Act.run_report, hpages]

/-- As long as no stop is set, splits are fetched as they are where none is heeded. -/
theorem fetchSplits_eq (hx : x.Latches)
    (h : x.isSet ((x.heedless.fetchSplits claimed).run s).state = false) :
    (x.fetchSplits claimed).run s = (x.heedless.fetchSplits claimed).run s := by
  induction claimed generalizing s with
  | nil => rfl
  | cons c claimed ih =>
    rw [fetchSplits_of_not_stops (stops_heedless x s)] at h ⊢
    simp only [looked_heedless] at h ⊢
    have hfirst : x.isSet ((x.heedless.fetchSplit c.1 c.2).run (x.looked s)).state = false :=
      eq_false_of_imp hx.isSet_fetchSplits h
    have hstop : x.stops s = false :=
      eq_false_of_imp (a := x.isSet (x.looked s)) hx.isSet_fetchSplit hfirst
    rw [fetchSplits_of_not_stops hstop]
    simp only [hx.fetchSplit_eq hfirst, ih h]

end Latches

/-! ## The page in flight -/

/-- Fetching pages touches their files only. -/
theorem fetchPages_changesOnly (x : Extraction σ) (record : Record) (pages : List Page)
    (s : Site σ) :
    ChangesOnly x.directory (fun name ↦ ∃ k, record.pages ≤ k ∧ k < record.pages + pages.length ∧
      IsPageName record.index k name) s.disk
      ((x.fetchPages record pages).run s).state.disk := by
  induction pages generalizing record s with
  | nil => exact .refl _
  | cons page pages ih =>
    cases hstop : x.stops s with
    | true =>
      rw [fetchPages_of_stops hstop]
      exact .refl _
    | false =>
      have hsaved : ChangesOnly x.directory (fun name ↦ ∃ k, record.pages ≤ k ∧
          k < record.pages + (page :: pages).length ∧ IsPageName record.index k name) s.disk
          ((x.savePage record.index record.pages page).run (x.looked s)).state.disk := by
        refine (x.savePage_changesOnly (x.looked s)).mono fun name hname ↦ ?_
        exact ⟨record.pages, Nat.le_refl _, by simp, hname⟩
      cases hsave : ((x.savePage record.index record.pages page).run (x.looked s)).value with
      | error e =>
        rw [fetchPages_of_error hstop hsave]
        exact hsaved
      | ok bytes =>
        rw [fetchPages_of_ok hstop hsave]
        refine hsaved.trans ((ih _ _).mono ?_)
        rintro name ⟨k, hle, hlt, hname⟩
        simp only [countPage] at hle hlt
        exact ⟨k, by omega, by simp only [List.length_cons]; omega, hname⟩

/-- A record goes on being about its split. -/
theorem index_fetchPages (x : Extraction σ) (record : Record) (pages : List Page) (s : Site σ) :
    ((x.fetchPages record pages).run s).value.index = record.index := by
  induction pages generalizing record s with
  | nil => rfl
  | cons page pages ih =>
    cases hstop : x.stops s with
    | true =>
      rw [fetchPages_of_stops hstop]
      rfl
    | false =>
      cases hsave : ((x.savePage record.index record.pages page).run (x.looked s)).value with
      | error e =>
        rw [fetchPages_of_error hstop hsave]
        rfl
      | ok bytes =>
        rw [fetchPages_of_ok hstop hsave]
        exact ih _ _

/-- Behind a stop no split is taken up. -/
theorem fetchSplits_of_set (h : x.stops s = true) (claimed : List (Nat × Split)) :
    let r := (x.fetchSplits claimed).run s
    r.value = [] ∧ r.trace = [] ∧ r.state.disk = s.disk := by
  cases claimed with
  | nil => exact ⟨rfl, rfl, rfl⟩
  | cons c claimed =>
    rw [fetchSplits_of_stops h]
    exact ⟨rfl, rfl, rfl⟩

/-- The record of a split that ends with the page behind those that it counts, by what saving that
page has come to. -/
def cutRecord (record : Record) (rest : List Page) : Except Service.Error Nat → Record
  | .error e => { record with outcome := .failed e.message }
  | .ok bytes =>
    if rest = [] then countPage record bytes
    else { countPage record bytes with outcome := .interrupted }

/-- What is left of a split comes to one page where a stop is made while that page is in flight. -/
theorem fetchPages_of_stop_behind (hx : x.Latches) (hstop : x.stops s = false)
    (hset : x.stops ((x.savePage record.index record.pages page).run (x.looked s)).state = true)
    (rest : List Page) :
    let saved := (x.savePage record.index record.pages page).run (x.looked s)
    let r := (x.fetchPages record (page :: rest)).run s
    r.value = cutRecord record rest saved.value ∧
    Event.effects r.trace = Event.effects saved.trace ∧ r.state.disk = saved.state.disk ∧
    x.stops r.state = true := by
  cases hsave : ((x.savePage record.index record.pages page).run (x.looked s)).value with
  | error e =>
    rw [fetchPages_of_error hstop hsave]
    refine ⟨by rw [hsave]; rfl, ?_, rfl, hset⟩
    simp [fail, Act.run_bind, Event.effects]
  | ok bytes =>
    rw [fetchPages_of_ok hstop hsave]
    cases rest with
    | nil =>
      refine ⟨by rw [hsave]; rfl, ?_, rfl, hset⟩
      simp [fetchPages, Act.run_bind, Event.effects]
    | cons next rest =>
      simp only [fetchPages_of_stops hset]
      refine ⟨by rw [hsave]; rfl, ?_, rfl, hx.isSet_looked hset⟩
      simp [interrupt, Act.run_bind, Event.effects]

/-- Where no stop is heeded the pages behind it are fetched. -/
theorem fetchPages_heedless (x : Extraction σ) (record : Record) (page : Page) (rest : List Page)
    (s : Site σ) :
    let saved := (x.savePage record.index record.pages page).run (x.looked s)
    let r := (x.heedless.fetchPages record (page :: rest)).run s
    (rest = [] ∨ (∃ e, saved.value = .error e) → r.value = cutRecord record rest saved.value) ∧
    (∃ behind, Event.effects r.trace = Event.effects saved.trace ++ behind) ∧
    ChangesOnly x.directory (fun name ↦ ∃ k, record.pages < k ∧ IsPageName record.index k name)
      saved.state.disk r.state.disk := by
  cases hsave : ((x.heedless.savePage record.index record.pages page).run
      (x.heedless.looked s)).value with
  | error e =>
    rw [fetchPages_of_error (stops_heedless x s) hsave]
    simp only [savePage_heedless, looked_heedless] at hsave
    simp only [hsave, savePage_heedless, looked_heedless, Event.effects_append]
    exact ⟨fun _ ↦ rfl, ⟨_, rfl⟩, .refl _⟩
  | ok bytes =>
    rw [fetchPages_of_ok (stops_heedless x s) hsave]
    simp only [savePage_heedless, looked_heedless] at hsave
    simp only [hsave, savePage_heedless, looked_heedless, Event.effects_append]
    refine ⟨?_, ⟨_, rfl⟩, ?_⟩
    · rintro (rfl | ⟨e, he⟩)
      · rfl
      · simp at he
    · refine (x.heedless.fetchPages_changesOnly _ _ _).mono ?_
      rintro name ⟨k, hle, -, hname⟩
      exact ⟨k, hle, hname⟩

end Harvest.Extraction

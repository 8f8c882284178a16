import Harvest.Proofs.Extraction.Pool
import Harvest.Proofs.Extraction.Records

/-!
# What a worker does to its split

The turns that are about one split leave a trail: the calls for its pages, the stops that were seen
before a page, and the pages that could not be written. How far a split has come agrees with its
trail and with the disk, whatever turns other workers take in between.
-/

namespace Harvest.Extraction

open Disk (ChangesOnly)
open Manifest (Record)
open Plan (IsPageName Page Split pageFileName)

variable {σ : Type}

/-! ## Trails -/

/-- A call for a page, and the world that it was made in. -/
structure Try (σ : Type) where
  page : Page
  world : World σ

/-- What came of a call for a page. -/
def Try.answer (x : Extraction σ) (t : Try σ) : Service.Answer Http.Response :=
  ((x.service.fetchPage t.page).run t.world).value

/-- What has happened to a split. -/
structure Trail (σ : Type) where
  tries : List (Try σ)
  /-- The numbers of the pages before which a stop was seen. -/
  stops : List Nat
  /-- The numbers of the pages that could not be written, and why. -/
  faults : List (Nat × Service.Error)

/-- The trail of a split to which nothing has happened. -/
def Trail.empty : Trail σ := ⟨[], [], []⟩

/-- What a turn adds to the trail of its split. -/
def Trail.add (trail : Trail σ) : Turn σ → Trail σ
  | .fetched _ page world => { trail with tries := trail.tries ++ [⟨page, world⟩] }
  | .interrupted _ number => { trail with stops := trail.stops ++ [number] }
  | .written _ number (.error e) => { trail with faults := trail.faults ++ [(number, e)] }
  | _ => trail

/-- The trail of split `i`. -/
def trail (i : Nat) (turns : List (Turn σ)) : Trail σ :=
  (turns.filter (·.index? == some i)).foldl Trail.add .empty

/-- Only a turn of split `i` adds to its trail. -/
theorem trail_concat (i : Nat) (turns : List (Turn σ)) (turn : Turn σ) :
    trail i (turns ++ [turn]) =
      if turn.index? = some i then (trail i turns).add turn else trail i turns := by
  by_cases h : turn.index? = some i <;> simp [trail, List.filter_append, h]

/-! ## Splits and their trails -/

/-- A record that counts the pages of a split that lie on the disk as the first calls of its trail
were answered. -/
structure Accounts (x : Extraction σ) (disk : Disk) (i : Nat) (split : Split) (record : Record)
    (tries : List (Try σ)) : Prop extends Counts x disk i split record where
  pages_eq : tries.map Try.page = split.pages.take tries.length
  granted : ∀ n < record.pages, ∃ t response, tries[n]? = some t ∧ t.answer x = .ok response ∧
    disk.read (pagePath x.directory i n) = .ok response.body

/-- The ways in which a split ends, by what its trail tells. -/
inductive Ends (x : Extraction σ) (disk : Disk) (i : Nat) (split : Split) :
    Trail σ → Record → Prop
  | completed {record : Record} {tries : List (Try σ)}
      (haccounts : Accounts x disk i split record tries) (houtcome : record.outcome = .completed)
      (hall : record.pages = split.pages.length) (hlength : tries.length = record.pages) :
      Ends x disk i split ⟨tries, [], []⟩ record
  | interrupted {record : Record} {tries : List (Try σ)}
      (haccounts : Accounts x disk i split record tries) (houtcome : record.outcome = .interrupted)
      (hlt : record.pages < split.pages.length) (hlength : tries.length = record.pages) :
      Ends x disk i split ⟨tries, [record.pages], []⟩ record
  | refused {record : Record} {tries : List (Try σ)} {t : Try σ} {e : Service.Error}
      (haccounts : Accounts x disk i split record (tries ++ [t]))
      (houtcome : record.outcome = .failed e.message)
      (hlt : record.pages < split.pages.length) (hlength : tries.length = record.pages)
      (hanswer : t.answer x = .error e) :
      Ends x disk i split ⟨tries ++ [t], [], []⟩ record
  | spoiled {record : Record} {tries : List (Try σ)} {t : Try σ} {response : Http.Response}
      {e : Service.Error} (haccounts : Accounts x disk i split record (tries ++ [t]))
      (houtcome : record.outcome = .failed e.message)
      (hlt : record.pages < split.pages.length) (hlength : tries.length = record.pages)
      (hanswer : t.answer x = .ok response) :
      Ends x disk i split ⟨tries ++ [t], [], [(record.pages, e)]⟩ record

/-- Whether how far a split has come agrees with its trail and the disk. -/
inductive Agrees (x : Extraction σ) (disk : Disk) (i : Nat) (split : Split) :
    Trail σ → Job → Prop
  | held : Agrees x disk i split .empty (.held split)
  | passed : Agrees x disk i split .empty .passed
  | between {record : Record} {pages : List Page} {tries : List (Try σ)}
      (haccounts : Accounts x disk i split record tries) (houtcome : record.outcome = .completed)
      (hrest : split.pages.drop record.pages = pages) (hlength : tries.length = record.pages) :
      Agrees x disk i split ⟨tries, [], []⟩ (.between record pages)
  | asking {record : Record} {page : Page} {pages : List Page} {tries : List (Try σ)}
      (haccounts : Accounts x disk i split record tries) (houtcome : record.outcome = .completed)
      (hrest : split.pages.drop record.pages = page :: pages)
      (hlength : tries.length = record.pages) :
      Agrees x disk i split ⟨tries, [], []⟩ (.asking record page pages)
  | writing {record : Record} {pages : List Page} {tries : List (Try σ)} {t : Try σ}
      {response : Http.Response} (haccounts : Accounts x disk i split record (tries ++ [t]))
      (houtcome : record.outcome = .completed)
      (hrest : split.pages.drop record.pages = t.page :: pages)
      (hlength : tries.length = record.pages) (hanswer : t.answer x = .ok response) :
      Agrees x disk i split ⟨tries ++ [t], [], []⟩ (.writing record pages response.body)
  | ended {trail : Trail σ} {record : Record} (hends : Ends x disk i split trail record) :
      Agrees x disk i split trail (.ended record)

variable {x : Extraction σ} {s site : Site σ} {d e : Disk} {i : Nat} {split : Split}
  {record : Record} {page : Page} {pages : List Page} {tries : List (Try σ)} {t : Try σ}
  {job job' : Job} {turn : Turn σ} {happened : Trail σ}

/-! ## Turns of other workers -/

section

variable {touched : String → Prop}

/-- A record goes on accounting for pages whose files are not touched. -/
theorem Accounts.of_changesOnly (h : Accounts x d i split record tries)
    (hchange : ChangesOnly x.directory touched d e)
    (hother : ∀ n < record.pages, ¬ touched (pageFileName i n)) :
    Accounts x e i split record tries := by
  refine ⟨h.toCounts.of_changesOnly hchange hother, h.pages_eq, fun n hn ↦ ?_⟩
  obtain ⟨t, response, ht, hanswer, hread⟩ := h.granted n hn
  exact ⟨t, response, ht, hanswer,
    (hchange.read_iff (Plan.isPlain_pageFileName _ _) (hother n hn)).mpr hread⟩

/-- What a record tells of its split stays true while the files of its pages stay. -/
theorem Ends.of_changesOnly (h : Ends x d i split happened record)
    (hchange : ChangesOnly x.directory touched d e)
    (hother : ∀ n, ¬ touched (pageFileName i n)) : Ends x e i split happened record := by
  cases h with
  | completed haccounts houtcome hall hlength =>
    exact .completed (haccounts.of_changesOnly hchange fun n _ ↦ hother n) houtcome hall hlength
  | interrupted haccounts houtcome hlt hlength =>
    exact .interrupted (haccounts.of_changesOnly hchange fun n _ ↦ hother n) houtcome hlt hlength
  | refused haccounts houtcome hlt hlength hanswer =>
    exact .refused (haccounts.of_changesOnly hchange fun n _ ↦ hother n) houtcome hlt hlength
      hanswer
  | spoiled haccounts houtcome hlt hlength hanswer =>
    exact .spoiled (haccounts.of_changesOnly hchange fun n _ ↦ hother n) houtcome hlt hlength
      hanswer

/-- A split stays as it is where only files of others are touched. -/
theorem Agrees.of_changesOnly (h : Agrees x d i split happened job)
    (hchange : ChangesOnly x.directory touched d e)
    (hother : ∀ n, ¬ touched (pageFileName i n)) : Agrees x e i split happened job := by
  cases h with
  | held => exact .held
  | passed => exact .passed
  | between haccounts houtcome hrest hlength =>
    exact .between (haccounts.of_changesOnly hchange fun n _ ↦ hother n) houtcome hrest hlength
  | asking haccounts houtcome hrest hlength =>
    exact .asking (haccounts.of_changesOnly hchange fun n _ ↦ hother n) houtcome hrest hlength
  | writing haccounts houtcome hrest hlength hanswer =>
    exact .writing (haccounts.of_changesOnly hchange fun n _ ↦ hother n) houtcome hrest hlength
      hanswer
  | ended hends => exact .ended (hends.of_changesOnly hchange hother)

end

/-! ## Turns of the worker on the split -/

/-- A turn is about the split of its worker. -/
theorem Advances.index?_eq (h : Advances x s i job turn job' site) : turn.index? = some i := by
  cases h <;> rfl

/-- A turn touches files of its split only. -/
theorem Advances.changesOnly (h : Advances x s i job turn job' site) :
    ChangesOnly x.directory (fun name ↦ ∃ n, IsPageName i n name) s.disk site.disk := by
  cases h with
  | pass | begin | interrupt | ask | refuse | grant | finish => exact .refl _
  | spoil | save => exact (writePage_changesOnly s).mono fun name hname ↦ ⟨_, hname⟩

private theorem accounts_startRecord : Accounts x d i split (startRecord i split) [] :=
  ⟨counts_startRecord, rfl, fun _ hn ↦ absurd hn (Nat.not_lt_zero _)⟩

/-- How a split ended does not count for what its record counts. -/
theorem Accounts.withOutcome (h : Accounts x d i split record tries)
    (outcome : Manifest.Outcome) : Accounts x d i split { record with outcome } tries :=
  ⟨{ h.toCounts with }, h.pages_eq, h.granted⟩

/-- The page that is asked for is the one behind those that are counted. -/
theorem Accounts.concat_try (h : Accounts x d i split record tries)
    (hrest : split.pages.drop record.pages = t.page :: pages)
    (hlength : tries.length = record.pages) : Accounts x d i split record (tries ++ [t]) := by
  obtain ⟨-, htake, -⟩ := take_succ_of_drop hrest
  refine ⟨h.toCounts, ?_, fun n hn ↦ ?_⟩
  · rw [List.map_append, h.pages_eq, List.length_append, List.length_singleton, hlength, htake]
    rfl
  · obtain ⟨t', response, ht', hanswer, hread⟩ := h.granted n hn
    exact ⟨t', response, by rw [List.getElem?_append_left (by omega), ht'], hanswer, hread⟩

/-- While the page behind them is written, pages that are accounted for stay as they are. -/
theorem Accounts.of_writePage (h : Accounts x s.disk i split record tries) (body : Text.Bytes) :
    Accounts x ((writePage x.directory i record.pages body).run s).state.disk i split record
      tries := by
  refine h.of_changesOnly (writePage_changesOnly s) fun n hn hname ↦ ?_
  have := (Plan.isPageName_pageFileName.mp hname).2
  omega

/-- A page that is written is accounted for. -/
theorem Accounts.count {response : Http.Response}
    (h : Accounts x s.disk i split record (tries ++ [t]))
    (hrest : split.pages.drop record.pages = t.page :: pages)
    (hlength : tries.length = record.pages) (hanswer : t.answer x = .ok response)
    (hwrite : ((writePage x.directory i record.pages response.body).run s).value = .ok ()) :
    Accounts x ((writePage x.directory i record.pages response.body).run s).state.disk i split
      (countPage record response.body.length) (tries ++ [t]) := by
  have hkept := h.of_writePage response.body
  have hread := read_of_writePage hwrite
  refine ⟨hkept.toCounts.concat_of_read hrest ⟨t.world, response, hanswer, rfl⟩ hread,
    h.pages_eq, fun n hn ↦ ?_⟩
  obtain hn | rfl := Nat.lt_succ_iff_lt_or_eq.mp hn
  · exact hkept.granted n hn
  · exact ⟨t, response, by rw [← hlength]; exact List.getElem?_concat_length, hanswer, hread⟩

/-- Every turn of the worker keeps its split in agreement with its trail. -/
theorem Advances.agrees (hadvances : Advances x s i job turn job' site)
    (h : Agrees x s.disk i split happened job) :
    Agrees x site.disk i split (happened.add turn) job' := by
  cases hadvances with
  | pass hstop =>
    cases h
    exact .passed
  | begin hstop =>
    cases h
    exact .between accounts_startRecord rfl rfl rfl
  | interrupt hstop =>
    cases h with
    | between haccounts houtcome hrest hlength =>
      exact .ended (.interrupted (haccounts.withOutcome _) rfl (take_succ_of_drop hrest).1 hlength)
  | ask hstop =>
    cases h with
    | between haccounts houtcome hrest hlength => exact .asking haccounts houtcome hrest hlength
  | refuse hanswer =>
    cases h with
    | asking haccounts houtcome hrest hlength =>
      exact .ended (.refused ((haccounts.concat_try hrest hlength).withOutcome _) rfl
        (take_succ_of_drop hrest).1 hlength hanswer)
  | grant hanswer =>
    cases h with
    | asking haccounts houtcome hrest hlength =>
      exact .writing (haccounts.concat_try hrest hlength) houtcome hrest hlength hanswer
  | spoil hwrite =>
    cases h with
    | writing haccounts houtcome hrest hlength hanswer =>
      exact .ended (.spoiled ((haccounts.of_writePage _).withOutcome _) rfl
        (take_succ_of_drop hrest).1 hlength hanswer)
  | save hwrite =>
    cases h with
    | writing haccounts houtcome hrest hlength hanswer =>
      exact .between (haccounts.count hrest hlength hanswer hwrite) houtcome
        (take_succ_of_drop hrest).2.2 (by simp [countPage, hlength])
  | finish =>
    cases h with
    | between haccounts houtcome hrest hlength =>
      have hall : split.pages.length ≤ _ := List.drop_eq_nil_iff.mp hrest
      exact .ended (.completed haccounts houtcome (Nat.le_antisymm haccounts.pages_le hall) hlength)

end Harvest.Extraction

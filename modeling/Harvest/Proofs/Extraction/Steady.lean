import Harvest.Proofs.Disk.Alike
import Harvest.Proofs.Extraction.Outcomes

/-!
# Splits of a steady extraction

An extraction is steady if it is never stopped and each page is answered by its URL alone, whenever
it is asked for. What becomes of a split then depends on nothing but its own files: neither the
state of the peer nor the files of other splits count.
-/

namespace Harvest.Extraction

open Disk (Alike ChangesOnly SamePaths)
open Manifest (Record)
open Plan (IsPageName Page Split draftName isPlain_draftName isPlain_pageFileName)
open Transport (Outcome Policy)

variable {σ α β : Type} {x : Extraction σ} {s t : Site σ} {dir : String}
  {named : String → Prop} {answer : Url → Service.Answer Http.Response}

/-- An extraction that is never stopped, and whose pages are answered by their URLs. -/
structure IsSteady (x : Extraction σ) (answer : Url → Service.Answer Http.Response) : Prop where
  answer_eq : ∀ page world, ((x.service.fetchPage page).run world).value = answer (pageUrl x page)
  not_stopped : ∀ peer, x.watch.isStopped peer = false

/-! ## Acts that see some files only -/

/-- Results with one value, on disks that are alike for some names. -/
structure SameFor (dir : String) (named : String → Prop) (r r' : Act.Result (Site σ) α) :
    Prop where
  value_eq : r'.value = r.value
  alike : Alike dir named r.state.disk r'.state.disk

/-- Results that are the same as one are the same as each other. -/
theorem SameFor.trans {r r' r'' : Act.Result (Site σ) α} (h : SameFor dir named r r')
    (k : SameFor dir named r' r'') : SameFor dir named r r'' :=
  ⟨k.value_eq.trans h.value_eq, h.alike.trans k.alike⟩

/-- An act that comes to the same on disks that are alike for some names. -/
def IsLocal (dir : String) (named : String → Prop) (act : Act (Site σ) α) : Prop :=
  ∀ s t : Site σ, Alike dir named s.disk t.disk → SameFor dir named (act.run s) (act.run t)

/-- To give a value is the same on all disks. -/
theorem isLocal_pure (a : α) : IsLocal dir named (pure a : Act (Site σ) α) :=
  fun _ _ h ↦ ⟨rfl, h⟩

private theorem isLocal_report (level : Log.Level) (source : Log.Source) (text : String) :
    IsLocal dir named (Act.report level source text : Act (Site σ) Unit) :=
  fun _ _ h ↦ ⟨rfl, h⟩

/-- What is local in each of two acts is local in both, one after the other. -/
theorem IsLocal.bind {act : Act (Site σ) α} {next : α → Act (Site σ) β}
    (hact : IsLocal dir named act) (hnext : ∀ a, IsLocal dir named (next a)) :
    IsLocal dir named (act >>= next) := by
  intro s t h
  obtain ⟨hvalue, halike⟩ := hact s t h
  rw [Act.run_bind, Act.run_bind, hvalue]
  obtain ⟨hvalue', halike'⟩ := hnext (act.run s).value (act.run s).state (act.run t).state halike
  exact ⟨hvalue', halike'⟩

/-- Where the answer does not depend on the world, asking for it keeps disks alike. -/
theorem isLocal_inWorld {act : Act (World σ) α}
    (h : ∀ world other, (act.run world).value = (act.run other).value) :
    IsLocal dir named (inWorld act) := by
  intro s t halike
  have hrun (u : Site σ) : (inWorld act).run u =
      ⟨(act.run u.world).value, (act.run u.world).trace,
        { u with world := (act.run u.world).state }⟩ := rfl
  rw [hrun, hrun, h t.world s.world]
  exact ⟨rfl, halike⟩

/-- To write a page no other file counts. -/
theorem isLocal_writePage (dir : String) (split number : Nat) (body : Text.Bytes) :
    IsLocal dir named (writePage dir split number body : Act (Site σ) _) := by
  intro s t h
  rw [run_writePage, run_writePage]
  have hplain := isPlain_draftName split number
  cases hwrite : s.disk.write (Disk.join dir (draftName split number)) body with
  | error fault =>
    rw [h.toSamePaths.write_error hplain hwrite]
    exact ⟨rfl, h⟩
  | ok drafted =>
    obtain ⟨drafted', hwrite', hdrafted⟩ := h.write_ok hplain hwrite
    have hread := Disk.read_of_write hwrite (Disk.getLast?_join hplain)
    have hread' := Disk.read_of_write hwrite' (Disk.getLast?_join hplain)
    rw [hwrite']
    simp only [pagePath]
    cases hmove : drafted.rename (Disk.join dir (draftName split number))
        (Disk.join dir (Plan.pageFileName split number)) with
    | error fault =>
      rw [hdrafted.toSamePaths.rename_error (isPlain_pageFileName _ _) hread hread' hmove]
      exact ⟨rfl, hdrafted⟩
    | ok disk =>
      obtain ⟨disk', hmove', hmoved⟩ :=
        hdrafted.rename_ok hplain (isPlain_pageFileName _ _) hread hread' hmove
      rw [hmove']
      exact ⟨rfl, hmoved⟩

/-! ## Steady extractions -/

namespace IsSteady

/-- A steady extraction sees no stop. -/
theorem stops_eq (hx : x.IsSteady answer) (s : Site σ) : x.stops s = false :=
  hx.not_stopped _

private theorem isLocal_isStopped (hx : x.IsSteady answer) : IsLocal dir named x.isStopped := by
  intro s t h
  rw [run_isStopped, run_isStopped, hx.stops_eq, hx.stops_eq]
  exact ⟨rfl, h⟩

/-- Saving a page depends on no files of others. -/
theorem isLocal_savePage (hx : x.IsSteady answer) (split number : Nat) (page : Page) :
    IsLocal x.directory named (x.savePage split number page) := by
  have hfetch : IsLocal x.directory named (inWorld (x.service.fetchPage page)) :=
    isLocal_inWorld fun world other ↦ by rw [hx.answer_eq, hx.answer_eq]
  refine hfetch.bind fun fetched ↦ ?_
  cases fetched with
  | error e => exact isLocal_pure _
  | ok response =>
    refine (isLocal_writePage _ _ _ _).bind fun written ↦ ?_
    cases written with
    | error e => exact isLocal_pure _
    | ok => exact isLocal_pure _

/-- To fetch the rest of a split no file counts but those that it writes. -/
theorem isLocal_fetchPages (hx : x.IsSteady answer) (record : Record) (pages : List Page) :
    IsLocal x.directory named (x.fetchPages record pages) := by
  induction pages generalizing record with
  | nil => exact (isLocal_report _ _ _).bind fun _ ↦ isLocal_pure _
  | cons page pages ih =>
    refine hx.isLocal_isStopped.bind fun stopped ↦ ?_
    by_cases hstopped : stopped = true
    · rw [if_pos hstopped]
      exact (isLocal_report _ _ _).bind fun _ ↦ isLocal_pure _
    · rw [if_neg hstopped]
      refine (hx.isLocal_savePage _ _ _).bind fun saved ↦ ?_
      cases saved with
      | error e => exact (isLocal_report _ _ _).bind fun _ ↦ isLocal_pure _
      | ok bytes => exact ih _

/-- Fetching a split depends on no files of others. -/
theorem isLocal_fetchSplit (hx : x.IsSteady answer) (index : Nat) (split : Split) :
    IsLocal x.directory named (x.fetchSplit index split) :=
  (isLocal_report _ _ _).bind fun _ ↦ hx.isLocal_fetchPages _ _

end IsSteady

/-! ## Peers with fixed replies -/

/-- A call that comes to one outcome in every world does so with retries, too. -/
theorem attempt_value_eq {call : Act σ Outcome} {path : String} {policy : Policy}
    {left retry : Nat} (h : ∀ s t, (call.run s).value = (call.run t).value) (s t : σ) :
    ((Transport.attempt call path policy left retry).run s).value =
      ((Transport.attempt call path policy left retry).run t).value := by
  induction left generalizing retry s t with
  | zero =>
    by_cases hpass : Transport.mayPass (call.run s).value = true
    · have hpass' : Transport.mayPass (call.run t).value = true := by rwa [h t s]
      rw [Transport.attempt_zero_of_mayPass hpass, Transport.attempt_zero_of_mayPass hpass', h t s]
    · have hfinal := Bool.eq_false_iff.mpr hpass
      have hfinal' : Transport.mayPass (call.run t).value = false := by rwa [h t s]
      rw [Transport.attempt_of_final hfinal, Transport.attempt_of_final hfinal']
      exact h s t
  | succ left ih =>
    by_cases hpass : Transport.mayPass (call.run s).value = true
    · have hpass' : Transport.mayPass (call.run t).value = true := by rwa [h t s]
      rw [Transport.attempt_succ_of_mayPass hpass, Transport.attempt_succ_of_mayPass hpass']
      exact ih _ _
    · have hfinal := Bool.eq_false_iff.mpr hpass
      have hfinal' : Transport.mayPass (call.run t).value = false := by rwa [h t s]
      rw [Transport.attempt_of_final hfinal, Transport.attempt_of_final hfinal']
      exact h s t

variable {peer : Peer σ} {credentials : Transport.Credentials} {reply : Url → Outcome} {url : Url}
  {accept : Http.MediaType}

/-- Where fetches are granted a token is always at hand. -/
theorem get_value_ok (h : ∀ state, ∃ token, (peer.fetchToken.run state).value = .ok token)
    (refresh : Bool) (world : World σ) :
    ∃ token, ((Token.get peer refresh).run world).value = .ok token := by
  have hrenew : ∃ token, ((Token.renew peer).run world).value = .ok token := by
    rw [Session.run_renew]
    exact h world.peer
  obtain ⟨state, cache⟩ := world
  cases refresh with
  | true => exact hrenew
  | false =>
    cases cache with
    | none => exact hrenew
    | some token => exact ⟨token, rfl⟩

/-- Where every request is answered by its URL alone, and tokens are granted that are asked for, a
call comes to the answer of its URL. -/
theorem call_value_eq
    (hsend : ∀ request state, ((peer.send request).run state).value = reply request.url)
    (htoken : credentials = .bearer →
      ∀ state, ∃ token, (peer.fetchToken.run state).value = .ok token) (world : World σ) :
    ((Transport.call peer credentials url accept).run world).value = reply url := by
  have hrequest (authorization : Http.Authorization) (world : World σ) :
      ((Transport.send peer ⟨url, accept, authorization⟩).run world).value = reply url :=
    hsend ⟨url, accept, authorization⟩ world.peer
  cases credentials with
  | basic username password => exact hrequest _ _
  | bearer =>
    have hwith (refresh : Bool) (world : World σ) :
        ((Transport.sendWithToken peer url accept refresh).run world).value = reply url := by
      obtain ⟨token, hget⟩ := get_value_ok (htoken rfl) refresh world
      simp only [Transport.sendWithToken, Act.run_bind, hget]
      exact hrequest _ _
    simp only [Transport.call, Act.run_bind, hwith]
    cases hreply : reply url with
    | error e => rfl
    | ok response =>
      by_cases hrefused : response.status = Transport.forbidden
      · simp only [if_pos hrefused, Act.run_bind, hwith, hreply]
      · simp only [if_neg hrefused, Act.run_pure]

/-- An extraction that is never stopped is steady where every request is answered by its URL
alone. -/
theorem isSteady_of_replies
    (hsend : ∀ request state, ((x.service.peer.send request).run state).value = reply request.url)
    (htoken : x.service.credentials = .bearer →
      ∀ state, ∃ token, (x.service.peer.fetchToken.run state).value = .ok token)
    (hstop : ∀ peer, x.watch.isStopped peer = false) (world : World σ) :
    x.IsSteady fun url ↦ ((x.service.fetch "data page" url Http.json).run world).value := by
  refine ⟨fun page other ↦ ?_, hstop⟩
  show ((x.service.fetch "data page" (pageUrl x page) Http.json).run other).value = _
  have hcall : ((Transport.callWithRetry x.service.peer x.service.credentials x.service.policy
        (pageUrl x page) Http.json).run other).value =
      ((Transport.callWithRetry x.service.peer x.service.credentials x.service.policy
        (pageUrl x page) Http.json).run world).value := by
    refine attempt_value_eq (fun s t ↦ ?_) other world
    rw [call_value_eq hsend htoken, call_value_eq hsend htoken]
  simp only [Service.fetch, Act.run_bind, hcall]
  cases ((Transport.callWithRetry x.service.peer x.service.credentials x.service.policy
      (pageUrl x page) Http.json).run world).value with
  | error e => rfl
  | ok response =>
    by_cases hgranted : response.isSuccess = true
    · simp only [if_pos hgranted, Act.run_pure]
    · simp only [if_neg hgranted, Act.run_pure]

end Harvest.Extraction

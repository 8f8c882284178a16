import Harvest.Proofs.Session.Tokens
import Mathlib.Data.Nat.Find

/-!
# What answers mean to a service

An operation makes attempts at its request until one of them is final, and then goes by the status
of the last answer: 200 to 299 grants it, another one below 500 is reported as it is, and where the
last attempt met with a status from 500 on, all attempts are used up. The check of a connection is
a single attempt that takes every status but 401 and 404.
Design: `SPEC_FULL.md:248–259`.
-/

namespace Harvest

open Http (MediaType Response)
open Transport (Outcome Policy failure forbidden mayPass nthCall spacedCalls stateAfter)

variable {σ α : Type} {world : World σ}

/-! ## Attempts -/

namespace Session

/-- Moments of one attempt: at most two requests and two fetches of a token, and no delay. -/
structure IsBrief (ms : List Moment) : Prop where
  sent : ms.countP (· matches .sent ..) ≤ 2
  fetched : ms.countP (· matches .fetched ..) ≤ 2
  awake : ∀ delay, .slept delay ∉ ms

variable {url : Url} {accept : MediaType} {kept : Option String} {ms : List Moment}
  {outcome : Outcome} {credentials : Transport.Credentials}

/-- A token is got with one fetch at most. -/
theorem Gets.fetches_le {refresh : Bool} {got : Except Token.Error String}
    (h : Gets refresh kept ms got) :
    ms.countP (· matches .sent ..) = 0 ∧ ms.countP (· matches .fetched ..) ≤ 1 ∧
      ∀ delay, .slept delay ∉ ms := by
  cases h <;> simp

/-- A call is brief whichever way it goes. -/
theorem CallTakes.isBrief (h : CallTakes url accept credentials kept ms outcome) : IsBrief ms := by
  cases h with
  | basic => exact ⟨by simp, by simp, by simp⟩
  | noToken hfirst =>
    obtain ⟨hsent, hfetched, hawake⟩ := hfirst.fetches_le
    exact ⟨by omega, by omega, hawake⟩
  | answered hfirst | notRenewed hfirst | resent hfirst =>
    obtain ⟨hsent, hfetched, hawake⟩ := hfirst.fetches_le
    refine ⟨?_, ?_, ?_⟩
    · simp [List.countP_append, hsent]
    · simp only [List.countP_append, List.countP_cons, List.countP_nil]
      simp
      omega
    · simp [hawake]

/-- What comes of an operation of a service, without what it gives. -/
def Result.answer : Result → Service.Answer Unit
  | .response answer => answer.map fun _ ↦ ()
  | .count answer => answer.map fun _ ↦ ()
  | .names answer => answer.map fun _ ↦ ()
  | _ => .ok ()

/-- The request that an operation of a service makes with retries: what messages call it, its URL
and the media type that it asks for. -/
def Operation.request? (s : Service σ) : Operation → Option (String × Url × MediaType)
  | .count => some ("record count", s.endpoints.url .count, Http.plainText)
  | .entities => some ("entity sets", s.endpoints.base, Http.json)
  | .metadata => some ("metadata", s.endpoints.url .metadata, Http.xml)
  | .probe => some ("probe", s.endpoints.url .tester, Http.json)
  | .page p => some ("data page", s.endpoints.url (.data p), Http.json)
  | _ => none

end Session

namespace Transport

/-- What attempts `0` to `n` of a call do, one after another with the delays of a policy between
them. Each but the last comes to something that may pass, and so does the last one only where the
policy allows for no more of them. -/
structure Attempts (call : Act (World σ) Outcome) (policy : Policy) (world : World σ) (n : Nat)
    (r : Act.Result (World σ) α) : Prop where
  le : n ≤ policy.retries
  earlier : ∀ i < n, mayPass (nthCall call world i).value = true
  last : mayPass (nthCall call world n).value = true → n = policy.retries
  state : r.state = stateAfter call world (n + 1)
  effects : Event.effects r.trace = spacedCalls call policy world (n + 1)

/-- What a call with retries makes of the outcome of its last attempt. -/
def Policy.concluded (policy : Policy) (last : Outcome) : Outcome :=
  if mayPass last then .error (.exhausted (policy.retries + 1) (failure last)) else last

/-- An error that may pass is passed on as the last of all attempts, any other as it is. -/
theorem Policy.concluded_error (policy : Policy) (e : Error) : policy.concluded (.error e) =
    .error (if e.isRetryable then .exhausted (policy.retries + 1) e else e) := by
  by_cases h : e.isRetryable = true <;> simp [concluded, mayPass, Transport.failure, h]

/-- An answer by which the server failed is the last of all attempts. -/
theorem Policy.concluded_of_le {policy : Policy} {response : Response}
    (h : 500 ≤ response.status) : policy.concluded (.ok response) =
      .error (.exhausted (policy.retries + 1) (.status response.status response.reason)) := by
  simp [concluded, mayPass, Transport.failure, h]

/-- Any other answer is passed on. -/
theorem Policy.concluded_of_lt {policy : Policy} {response : Response}
    (h : response.status < 500) : policy.concluded (.ok response) = .ok response := by
  simp [concluded, mayPass, h]

/-- A call with retries makes attempts, and goes by the outcome of the last one. -/
theorem withRetries_attempts (call : Act (World σ) Outcome) (path : String) (policy : Policy)
    (world : World σ) :
    let r := (withRetries call path policy).run world
    ∃ n, Attempts call policy world n r ∧
      r.value = policy.concluded (nthCall call world n).value := by
  by_cases hfinal : ∃ n, n ≤ policy.retries ∧ mayPass (nthCall call world n).value = false
  · obtain ⟨hle, hlast⟩ := Nat.find_spec hfinal
    have hearlier : ∀ i < Nat.find hfinal, mayPass (nthCall call world i).value = true := by
      intro i hi
      have := Nat.find_min hfinal hi
      simpa [Nat.le_trans hi.le hle] using this
    obtain ⟨hmade, hvalue⟩ := withRetries_of_final hle hearlier hlast
    refine ⟨_, ⟨hle, hearlier, by simp [hlast], hmade.state, hmade.effects⟩, ?_⟩
    rw [hvalue, Policy.concluded, hlast, if_neg Bool.false_ne_true]
  · have hpass : ∀ i ≤ policy.retries, mayPass (nthCall call world i).value = true := by
      intro i hi
      by_contra h
      exact hfinal ⟨i, hi, by simpa using h⟩
    obtain ⟨hmade, hvalue⟩ := withRetries_of_mayPass hpass
    refine ⟨_, ⟨Nat.le_refl _, fun i hi ↦ hpass i hi.le, fun _ ↦ rfl, hmade.state,
      hmade.effects⟩, ?_⟩
    rw [hvalue, Policy.concluded, if_pos (hpass _ (Nat.le_refl _))]

end Transport

namespace Service

open Session

/-! ## Verdicts -/

/-- What an operation makes of what its call with retries comes to. -/
def verdict (operation : String) : Outcome → Answer Response
  | .error e => .error (.transport e)
  | .ok response =>
    if response.isSuccess then .ok response
    else .error (.unexpectedStatus operation response.status (detail response))

/-- A request is granted by an answer with a status for that. -/
theorem verdict_eq_ok_iff {name : String} {outcome : Outcome} {response : Response} :
    verdict name outcome = .ok response ↔ outcome = .ok response ∧ response.isSuccess = true := by
  cases outcome with
  | error e => simp [verdict]
  | ok found =>
    by_cases h : found.isSuccess = true
    · simp only [verdict, if_pos h, Except.ok.injEq]
      exact ⟨fun heq ↦ ⟨heq, heq ▸ h⟩, fun heq ↦ heq.1⟩
    · simp only [verdict, if_neg h, reduceCtorEq, Except.ok.injEq, false_iff, not_and]
      exact fun heq ↦ heq ▸ h

/-- An operation goes by its verdict on a request: it fails where the verdict is an error, and where
it is not, only the body can be no good. -/
structure GoesBy (operation : String) (called : Act.Result (World σ) Outcome)
    (r : Act.Result (World σ) α) (answer : Answer Unit) : Prop where
  state : r.state = called.state
  effects : Event.effects r.trace = Event.effects called.trace
  of_error : ∀ e, verdict operation called.value = .error e → answer = .error e
  of_ok : ∀ response, verdict operation called.value = .ok response →
    answer = .ok () ∨ (∃ text, answer = .error (.invalidCount text)) ∨
      ∃ detail, answer = .error (.invalidEntityList detail)

/-- What comes of the call with retries that an operation makes. -/
def called (s : Service σ) (url : Url) (accept : MediaType) (world : World σ) :
    Act.Result (World σ) Outcome :=
  (Transport.callWithRetry s.peer s.credentials s.policy url accept).run world

/-- A service that is asked with a name and a password and gives listed answers. -/
def asked : Service (List Outcome × List (Except Token.Error String)) :=
  ⟨⟨⟨"http".toList, none, .segments [], none, none⟩, Query.empty⟩, listed, .basic "me" "secret",
    .standard⟩

/-- A world in which one request is answered. -/
def answering (response : Response) :
    World (List Outcome × List (Except Token.Error String)) :=
  ⟨([.ok response], []), none⟩

/-- What is answered to a request comes of it, unless it may pass. -/
theorem value_called_asked {response : Response} (h : mayPass (.ok response) = false) (url : Url)
    (accept : MediaType) : (asked.called url accept (answering response)).value = .ok response := by
  have hfirst : (nthCall (Transport.call listed asked.credentials url accept)
      (answering response) 0).value = .ok response := rfl
  rw [← hfirst] at h
  exact (Transport.withRetries_of_final (Nat.zero_le _) (fun i hi ↦ absurd hi (Nat.not_lt_zero i))
    h).2.trans hfirst

variable {s : Service σ} {name : String} {url : Url} {accept : MediaType}
  {result : Act.Result (World σ) Outcome} {answer : Answer Unit}

/-- To fetch is to call with retries, and to judge the last outcome. -/
theorem run_fetch (s : Service σ) (name : String) (url : Url) (accept : MediaType)
    (world : World σ) :
    (s.fetch name url accept).run world =
      ⟨verdict name (s.called url accept world).value, (s.called url accept world).trace,
        (s.called url accept world).state⟩ := by
  simp only [fetch, called, Act.run_bind]
  cases ((Transport.callWithRetry s.peer s.credentials s.policy url accept).run world).value with
  | error e => simp [verdict]
  | ok response =>
    by_cases hgranted : response.isSuccess = true <;> simp [verdict, hgranted]

/-- To fetch an endpoint is to report it and to fetch its URL. -/
theorem run_fetchEndpoint (s : Service σ) (name : String) (endpoint : Endpoint)
    (accept : MediaType) (world : World σ) :
    (s.fetchEndpoint name endpoint accept).run world =
      let r := s.called (s.endpoints.url endpoint) accept world
      ⟨verdict name r.value, .log (s.endpoints.report endpoint) :: r.trace, r.state⟩ := by
  simp only [fetchEndpoint, Act.run_bind, Act.run_emit, run_fetch, List.singleton_append]

/-- A request that is refused or fails is answered by that. -/
theorem goesBy_of_error {r : Act.Result (World σ) α} {e : Error}
    (h : verdict name result.value = .error e) (hstate : r.state = result.state)
    (heffects : Event.effects r.trace = Event.effects result.trace) :
    GoesBy name result r (.error e) := by
  refine ⟨hstate, heffects, fun e' he' ↦ ?_, fun response hresponse ↦ ?_⟩
  · rw [Except.error.inj (h.symm.trans he')]
  · simp [h] at hresponse

/-- A request that is granted is answered by its body. -/
theorem goesBy_of_ok {r : Act.Result (World σ) α} {response : Response}
    (h : verdict name result.value = .ok response) (hstate : r.state = result.state)
    (heffects : Event.effects r.trace = Event.effects result.trace)
    (hanswer : answer = .ok () ∨ (∃ text, answer = .error (.invalidCount text)) ∨
      ∃ detail, answer = .error (.invalidEntityList detail)) :
    GoesBy name result r answer := by
  refine ⟨hstate, heffects, fun e he ↦ ?_, fun _ _ ↦ hanswer⟩
  simp [h] at he

/-- An answer that is passed on as it is goes by the verdict. -/
theorem goesBy_verdict {r : Act.Result (World σ) α} (hstate : r.state = result.state)
    (heffects : Event.effects r.trace = Event.effects result.trace) :
    GoesBy name result r ((verdict name result.value).map fun _ ↦ ()) := by
  cases hverdict : verdict name result.value with
  | error e => exact goesBy_of_error hverdict hstate heffects
  | ok response => exact goesBy_of_ok hverdict hstate heffects (.inl rfl)

/-- What is made of a result afterwards changes nothing. -/
theorem GoesBy.pure {act : Act (World σ) α} {β : Type} {f : α → β}
    (h : GoesBy name result (act.run world) answer) :
    GoesBy name result ((act >>= fun a ↦ Pure.pure (f a)).run world) answer := by
  simp only [Act.run_bind, Act.run_pure, List.append_nil]
  exact ⟨h.state, h.effects, h.of_error, h.of_ok⟩

private theorem goesBy_fetchEndpoint (s : Service σ) (name : String) (endpoint : Endpoint)
    (accept : MediaType) (world : World σ) :
    let r := (s.fetchEndpoint name endpoint accept).run world
    GoesBy name (s.called (s.endpoints.url endpoint) accept world) r (r.value.map fun _ ↦ ()) := by
  rw [run_fetchEndpoint]
  exact goesBy_verdict rfl rfl

/-- The error of a count is one about its text. -/
theorem readCount_eq_error {body : String} {e : Error} (h : readCount body = .error e) :
    ∃ text, e = .invalidCount text := by
  rw [readCount] at h
  cases hread : Text.readNatural (Text.trimChars body.toList) with
  | none => exact ⟨_, by simpa [hread] using h.symm⟩
  | some n => simp [hread] at h

private theorem goesBy_recordCount (s : Service σ) (world : World σ) :
    let r := s.recordCount.run world
    GoesBy "record count" (s.called (s.endpoints.url .count) Http.plainText world) r
      (r.value.map fun _ ↦ ()) := by
  simp only [recordCount, Act.run_bind, run_fetchEndpoint]
  cases hverdict : verdict "record count"
      (s.called (s.endpoints.url .count) Http.plainText world).value with
  | error e =>
    refine goesBy_of_error hverdict rfl ?_
    simp only [Act.run_pure, List.append_nil, Event.effects_log]
  | ok response =>
    simp only
    cases hcount : readCount response.text with
    | error e =>
      obtain ⟨text, rfl⟩ := readCount_eq_error hcount
      refine goesBy_of_ok hverdict rfl ?_ (.inr (.inl ⟨text, rfl⟩))
      simp only [Act.run_pure, List.append_nil, Event.effects_log]
    | ok n =>
      refine goesBy_of_ok hverdict rfl ?_ (.inl rfl)
      simp only [Act.run_bind, Act.run_report, Act.run_pure, List.append_nil, List.cons_append,
        Event.effects_log, Event.effects_append_log]

private theorem goesBy_listEntities (s : Service σ) (world : World σ) :
    let r := s.listEntities.run world
    GoesBy "entity sets" (s.called s.endpoints.base Http.json world) r
      (r.value.map fun _ ↦ ()) := by
  simp only [listEntities, Act.run_bind, run_fetch]
  cases hverdict : verdict "entity sets" (s.called s.endpoints.base Http.json world).value with
  | error e =>
    refine goesBy_of_error hverdict rfl ?_
    simp only [Act.run_pure, List.append_nil]
  | ok response =>
    simp only
    cases parseEntityList response.body with
    | error detail =>
      refine goesBy_of_ok hverdict rfl ?_ (.inr (.inr ⟨detail, rfl⟩))
      simp only [Act.run_pure, List.append_nil]
    | ok names =>
      refine goesBy_of_ok hverdict rfl ?_ (.inl rfl)
      simp only [Act.run_bind, Act.run_report, Act.run_pure, List.append_nil,
        Event.effects_append_log]

/-- Every operation that makes a request with retries goes by what comes of that. -/
theorem goesBy_perform {operation : Operation}
    (h : operation.request? s = some (name, url, accept)) (world : World σ) :
    let r := (s.perform operation).run world
    GoesBy name (s.called url accept world) r r.value.answer := by
  cases operation with
  | check | call | callWithRetry | token | invalidate | store => cases h
  | count =>
    cases h
    exact (s.goesBy_recordCount world).pure
  | entities =>
    cases h
    exact (s.goesBy_listEntities world).pure
  | metadata | probe | page =>
    cases h
    exact (s.goesBy_fetchEndpoint _ _ _ world).pure

/-! ## Last answers -/

/-- How an operation is answered by the outcome of its last attempt. -/
structure Classifies (policy : Policy) (name : String) (last : Outcome) (answer : Answer Unit) :
    Prop where
  granted : answer = .ok () →
    ∃ response, last = .ok response ∧ 200 ≤ response.status ∧ response.status < 300
  readable : ∀ response, last = .ok response → 200 ≤ response.status → response.status < 300 →
    answer = .ok () ∨ (∃ text, answer = .error (.invalidCount text)) ∨
      ∃ detail, answer = .error (.invalidEntityList detail)
  unexpected : ∀ operation status text,
    answer = .error (.unexpectedStatus operation status text) ↔
      ∃ response, last = .ok response ∧ response.status < 500 ∧
        ¬(200 ≤ response.status ∧ response.status < 300) ∧
        operation = name ∧ status = response.status ∧ text = detail response
  persistent : ∀ response, last = .ok response → 500 ≤ response.status →
    answer = .error (.transport
      (.exhausted (policy.retries + 1) (.status response.status response.reason)))
  failed : ∀ e, last = .error e → answer =
    .error (.transport (if e.isRetryable then .exhausted (policy.retries + 1) e else e))

private theorem isSuccess_iff {response : Response} :
    response.isSuccess = true ↔ 200 ≤ response.status ∧ response.status < 300 := by
  simp [Response.isSuccess]

/-- An operation that goes by its verdict on a last attempt is answered accordingly. -/
theorem GoesBy.classifies {policy : Policy} {last : Outcome} {r : Act.Result (World σ) α}
    (h : GoesBy name result r answer) (hvalue : result.value = policy.concluded last) :
    Classifies policy name last answer := by
  cases last with
  | error e =>
    rw [Policy.concluded_error] at hvalue
    have hanswer := h.of_error _ (congrArg (verdict name) hvalue)
    constructor <;> simp [hanswer]
  | ok response =>
    by_cases hserver : 500 ≤ response.status
    · rw [Policy.concluded_of_le hserver] at hvalue
      have hanswer := h.of_error _ (congrArg (verdict name) hvalue)
      constructor <;> simp [hanswer]
      all_goals omega
    · rw [Policy.concluded_of_lt (by omega)] at hvalue
      by_cases hgranted : 200 ≤ response.status ∧ response.status < 300
      · have hanswer := h.of_ok response
          (by rw [hvalue, verdict, if_pos (isSuccess_iff.mpr hgranted)])
        refine ⟨fun _ ↦ ⟨response, rfl, hgranted⟩, fun _ _ _ _ ↦ hanswer, ?_, ?_, by simp⟩
        · rcases hanswer with rfl | ⟨text, rfl⟩ | ⟨detail, rfl⟩ <;> simp <;> omega
        · simp only [Except.ok.injEq, forall_eq']
          omega
      · have hanswer := h.of_error _
          (by rw [hvalue, verdict, if_neg fun h ↦ hgranted (isSuccess_iff.mp h)])
        refine ⟨by simp [hanswer], ?_, ?_, ?_, by simp⟩
        · rintro _ ⟨⟩ hle hlt
          exact absurd ⟨hle, hlt⟩ hgranted
        · intro operation status text
          simp only [hanswer, Except.error.injEq, Error.unexpectedStatus.injEq, Except.ok.injEq,
            exists_eq_left', hgranted, not_false_eq_true, true_and]
          grind
        · rintro _ ⟨⟩ hle
          omega

/-! ## The check of a connection -/

/-- What the check of a connection makes of what its one attempt comes to. -/
def connectionVerdict : Outcome → Answer Response
  | .error e => .error (.transport e)
  | .ok response =>
    if response.status = 401 then .error .invalidCredentials
    else if response.status = 404 then .error .notFound
    else .ok response

/-- The check of a connection is one attempt and, besides reports, nothing else. -/
theorem run_checkConnection (s : Service σ) (world : World σ) :
    let attempt := (Transport.call s.peer s.credentials s.endpoints.base Http.json).run world
    let r := s.checkConnection.run world
    r.value = connectionVerdict attempt.value ∧ r.state = attempt.state ∧
      Event.effects r.trace = Event.effects attempt.trace := by
  simp only [checkConnection, Act.run_bind]
  cases ((Transport.call s.peer s.credentials s.endpoints.base Http.json).run world).value with
  | error e => simp [connectionVerdict]
  | ok response =>
    by_cases hcredentials : response.status = 401
    · simp [connectionVerdict, hcredentials]
    · by_cases hmissing : response.status = 404
      · simp [connectionVerdict, hmissing]
      · simp [connectionVerdict, hcredentials, hmissing, Act.run_bind, Event.effects_append_log]

/-- How a check of the connection is answered by the outcome of its one attempt. -/
structure Checks (last : Outcome) (answer : Answer Response) : Prop where
  invalidCredentials : answer = .error .invalidCredentials ↔
    ∃ response, last = .ok response ∧ response.status = 401
  notFound : answer = .error .notFound ↔ ∃ response, last = .ok response ∧ response.status = 404
  accepted : ∀ response, answer = .ok response ↔
    last = .ok response ∧ response.status ≠ 401 ∧ response.status ≠ 404
  failed : ∀ e, answer = .error (.transport e) ↔ last = .error e

private theorem checks_connectionVerdict (last : Outcome) :
    Checks last (connectionVerdict last) := by
  cases last with
  | error e => constructor <;> simp [connectionVerdict]
  | ok response =>
    by_cases hcredentials : response.status = 401
    · constructor <;> simp [connectionVerdict, hcredentials]
    · by_cases hmissing : response.status = 404
      · constructor <;> simp [connectionVerdict, hmissing]
      · constructor <;> simp [connectionVerdict, hcredentials, hmissing]

/-! ## Operations -/

/-- Every attempt at a request is brief. -/
theorem nthCall_isBrief (s : Service σ) (url : Url) (accept : MediaType) (world : World σ)
    (i : Nat) :
    let attempt := Transport.call s.peer s.credentials url accept
    ∃ ms, Tells s.peer (stateAfter attempt world i) (nthCall attempt world i) ms ∧ IsBrief ms := by
  obtain ⟨ms, htells, htakes⟩ := call_takes s.peer s.credentials url accept
    (stateAfter (Transport.call s.peer s.credentials url accept) world i)
  exact ⟨ms, htells, htakes.isBrief⟩

/-- Every operation with retries makes brief attempts at one request, none after one that is
refused, and is answered by the last of them. The check of a connection makes one attempt. -/
theorem perform_classifies (s : Service σ) (world : World σ) :
    (∀ operation name url accept, operation.request? s = some (name, url, accept) →
      let attempt := Transport.call s.peer s.credentials url accept
      let r := (s.perform operation).run world
      ∃ n, Transport.Attempts attempt s.policy world n r ∧
        (∀ i ≤ n, ∃ ms, Tells s.peer (stateAfter attempt world i) (nthCall attempt world i) ms ∧
          IsBrief ms) ∧
        (∀ i ≤ n, ∀ response, (nthCall attempt world i).value = .ok response →
          response.status = forbidden → i = n) ∧
        Classifies s.policy name (nthCall attempt world n).value r.value.answer) ∧
    let attempt := (Transport.call s.peer s.credentials s.endpoints.base Http.json).run world
    let r := s.checkConnection.run world
    r.state = attempt.state ∧ Event.effects r.trace = Event.effects attempt.trace ∧
      (∃ ms, Tells s.peer world attempt ms ∧ IsBrief ms) ∧ Checks attempt.value r.value := by
  constructor
  · intro operation name url accept hrequest attempt r
    have hgoes := goesBy_perform hrequest world
    obtain ⟨n, hattempts, hvalue⟩ := Transport.withRetries_attempts attempt
      (String.ofList url.path.chars) s.policy world
    refine ⟨n, { hattempts with
        state := hgoes.state.trans hattempts.state,
        effects := hgoes.effects.trans hattempts.effects },
      fun i _ ↦ s.nthCall_isBrief url accept world i, fun i hi response hresponse hrefusal ↦ ?_,
      hgoes.classifies hvalue⟩
    -- a refusal is final, and what is final comes last
    by_contra hne
    have hpass := hattempts.earlier i (by omega)
    rw [hresponse] at hpass
    simp [mayPass, hrefusal, forbidden] at hpass
  · intro attempt r
    obtain ⟨hvalue, hstate, heffects⟩ := s.run_checkConnection world
    refine ⟨hstate, heffects, s.nthCall_isBrief s.endpoints.base Http.json world 0, ?_⟩
    rw [show r.value = connectionVerdict attempt.value from hvalue]
    exact checks_connectionVerdict attempt.value

/-- An attempt that fails, another one that is refused and then finds nothing: the operation fails
by the status of that last answer. -/
theorem perform_classifies_missing :
    let u : Url := ⟨"http".toList, none, .segments [], none, none⟩
    let s : Service (List Outcome × List (Except Token.Error String)) :=
      ⟨⟨u, Query.empty⟩, listed, .bearer, .standard⟩
    let answer (status : Nat) : Outcome := .ok ⟨status, "", none, []⟩
    let world : World _ := ⟨([answer 503, answer 403, answer 404], [.ok "a", .ok "b"]), none⟩
    let attempt := Transport.call listed .bearer (s.endpoints.url .metadata) Http.xml
    let r := (s.perform .metadata).run world
    r.value.answer = .error (.unexpectedStatus "metadata" 404 "") ∧
      ∃ n ≤ 3, Event.effects r.trace = Transport.spacedCalls attempt .standard world (n + 1) ∧
        ∃ response, (nthCall attempt world n).value = .ok response ∧ response.status = 404 := by
  intro u s answer world attempt r
  obtain ⟨n, hattempts, -, -, hclassifies⟩ := (perform_classifies s world).1 .metadata _ _ _ rfl
  have hanswer : r.value.answer = .error (.unexpectedStatus "metadata" 404 "") := by
    decide +kernel
  obtain ⟨response, hlast, -, -, -, hstatus, -⟩ :=
    (hclassifies.unexpected "metadata" 404 "").mp hanswer
  exact ⟨hanswer, n, hattempts.le, hattempts.effects, response, hlast, hstatus.symm⟩

end Service

end Harvest

import Harvest.Proofs.Session.Moments

/-!
# The moments of a call

A call goes one of a few ways: with basic credentials one request is sent; with a bearer token there
is none at hand, or the request is answered, or it is refused and then either no new token is
granted or the request is sent once more. A call with retries is calls with delays between them.
-/

namespace Harvest.Session

open Http (MediaType)
open Transport (Credentials Outcome Policy failure forbidden mayPass)

variable {σ : Type} {peer : Peer σ} {world : World σ} {ms : List Moment} {url : Url}
  {accept : MediaType}

/-! ## Tokens at hand -/

/-- How a token is got: the kept one, or a fresh one where none is kept or a fresh one is asked
for. -/
inductive Gets : Bool → Option String → List Moment → Except Token.Error String → Prop
  | kept (token : String) : Gets false (some token) [] (.ok token)
  | fetched {refresh : Bool} {kept : Option String} (h : refresh = true ∨ kept = none)
      (outcome : Except Token.Error String) : Gets refresh kept [.fetched kept outcome] outcome

/-- A token that is got is kept from then on. -/
theorem Gets.newest_or {refresh : Bool} {kept : Option String} {token : String}
    (h : Gets refresh kept ms (.ok token)) : (newest ms).or kept = some token := by
  cases h <;> rfl

/-- A fresh token is fetched. -/
theorem Gets.eq_fetched {kept : Option String} {outcome : Except Token.Error String}
    (h : Gets true kept ms outcome) : ms = [.fetched kept outcome] := by
  cases h
  rfl

/-- A token is got in one of these ways. -/
theorem get_gets (peer : Peer σ) (refresh : Bool) (world : World σ) :
    ∃ ms, Tells peer world ((Token.get peer refresh).run world) ms ∧
      Gets refresh world.cache ms ((Token.get peer refresh).run world).value := by
  obtain ⟨state, cache⟩ := world
  cases refresh with
  | true => exact ⟨_, tells_renew peer ⟨state, cache⟩, .fetched (.inl rfl) _⟩
  | false =>
    cases cache with
    | none => exact ⟨_, tells_renew peer ⟨state, none⟩, .fetched (.inr rfl) _⟩
    | some token => exact ⟨[], .pure (Except.ok token), .kept token⟩

/-- Where a token is got, one request is sent with it. -/
theorem sendWithToken_gets (peer : Peer σ) (url : Url) (accept : MediaType) (refresh : Bool)
    (world : World σ) :
    let r := (Transport.sendWithToken peer url accept refresh).run world
    ∃ ms outcome, Gets refresh world.cache ms outcome ∧
      match outcome with
      | .error e => Tells peer world r ms ∧ r.value = .error (.auth e)
      | .ok token =>
        Tells peer world r (ms ++ [.sent (some token) ⟨url, accept, .bearer token⟩ r.value]) := by
  obtain ⟨ms, htells, hgets⟩ := get_gets peer refresh world
  refine ⟨ms, _, hgets, ?_⟩
  cases hvalue : ((Token.get peer refresh).run world).value with
  | error e =>
    have hrest : Tells peer ((Token.get peer refresh).run world).state
        ((pure (.error (.auth e)) : Act (World σ) Outcome).run _) [] := .pure _
    have hbind := htells.append hrest
    simp only [Transport.sendWithToken, Act.run_bind, hvalue]
    exact ⟨by simpa using hbind, rfl⟩
  | ok token =>
    rw [hvalue] at hgets
    have hkept : ((Token.get peer refresh).run world).state.cache = some token := by
      rw [htells.cache_eq, hgets.newest_or]
    have hsend := tells_send peer ⟨url, accept, .bearer token⟩
      ((Token.get peer refresh).run world).state
    rw [hkept] at hsend
    simp only [Transport.sendWithToken, Act.run_bind, hvalue]
    exact htells.append hsend

/-- A request that is sent with a token that is got leaves that token kept. -/
theorem Gets.kept_of_tells {refresh : Bool} {kept : Option String} {token : String}
    {request : Http.Request} {outcome : Outcome} {r : Act.Result (World σ) Outcome}
    (h : Gets refresh world.cache ms (.ok token))
    (htells : Tells peer world r (ms ++ [.sent kept request outcome])) :
    r.state.cache = some token := by
  have hsent : newest [.sent kept request outcome] = none := rfl
  rw [htells.cache_eq, newest_append, hsent, Option.none_or, h.newest_or]

/-! ## Calls -/

/-- The ways that a call can go, with what it comes to. -/
inductive CallTakes (url : Url) (accept : MediaType) :
    Credentials → Option String → List Moment → Outcome → Prop
  | basic {username password : String} {kept : Option String} {outcome : Outcome} :
      CallTakes url accept (.basic username password) kept
        [.sent kept ⟨url, accept, .basic username password⟩ outcome] outcome
  | noToken {kept : Option String} {first : List Moment} {e : Token.Error}
      (hfirst : Gets false kept first (.error e)) :
      CallTakes url accept .bearer kept first (.error (.auth e))
  | answered {kept : Option String} {first : List Moment} {token : String} {outcome : Outcome}
      (hfirst : Gets false kept first (.ok token))
      (hanswer : ∀ response, outcome = .ok response → response.status ≠ forbidden) :
      CallTakes url accept .bearer kept
        (first ++ [.sent (some token) ⟨url, accept, .bearer token⟩ outcome]) outcome
  | notRenewed {kept : Option String} {first : List Moment} {token : String}
      {refusal : Http.Response} {e : Token.Error} (hfirst : Gets false kept first (.ok token))
      (hrefusal : refusal.status = forbidden) :
      CallTakes url accept .bearer kept
        (first ++ [.sent (some token) ⟨url, accept, .bearer token⟩ (.ok refusal),
          .fetched (some token) (.error e)]) (.error (.auth e))
  | resent {kept : Option String} {first : List Moment} {token fresh : String}
      {refusal : Http.Response} {outcome : Outcome} (hfirst : Gets false kept first (.ok token))
      (hrefusal : refusal.status = forbidden) :
      CallTakes url accept .bearer kept
        (first ++ [.sent (some token) ⟨url, accept, .bearer token⟩ (.ok refusal),
          .fetched (some token) (.ok fresh),
          .sent (some fresh) ⟨url, accept, .bearer fresh⟩ outcome]) outcome

/-- Where a call with a bearer token is not refused, what comes of the first request is final. -/
private theorem run_call_of_answer (hanswer : ∀ response,
      ((Transport.sendWithToken peer url accept false).run world).value = .ok response →
        response.status ≠ forbidden) :
    (Transport.call peer .bearer url accept).run world =
      (Transport.sendWithToken peer url accept false).run world := by
  generalize hfirst : (Transport.sendWithToken peer url accept false).run world = first at *
  obtain ⟨value, trace, state⟩ := first
  cases value with
  | error e => simp [Transport.call, Act.run_bind, hfirst]
  | ok response => simp [Transport.call, Act.run_bind, hfirst, hanswer response rfl]

/-- Where it is refused, the request is sent once more with a fresh token. -/
private theorem run_call_of_refusal {refusal : Http.Response}
    (hvalue : ((Transport.sendWithToken peer url accept false).run world).value = .ok refusal)
    (hrefusal : refusal.status = forbidden) :
    (Transport.call peer .bearer url accept).run world =
      let first := (Transport.sendWithToken peer url accept false).run world
      let report := (Act.report .info .transport
        "Access token rejected (HTTP 403), refreshing").run first.state
      let second := (Transport.sendWithToken peer url accept true).run report.state
      ⟨second.value, first.trace ++ (report.trace ++ second.trace), second.state⟩ := by
  simp [Transport.call, Act.run_bind, hvalue, hrefusal]

/-- Every call goes one of these ways. -/
theorem call_takes (peer : Peer σ) (credentials : Credentials) (url : Url) (accept : MediaType)
    (world : World σ) :
    let r := (Transport.call peer credentials url accept).run world
    ∃ ms, Tells peer world r ms ∧ CallTakes url accept credentials world.cache ms r.value := by
  cases credentials with
  | basic username password => exact ⟨_, tells_send peer _ world, .basic⟩
  | bearer =>
    obtain ⟨ms, outcome, hgets, hfirst⟩ := sendWithToken_gets peer url accept false world
    cases outcome with
    | error e =>
      obtain ⟨htells, hvalue⟩ := hfirst
      have hrun : (Transport.call peer .bearer url accept).run world =
          (Transport.sendWithToken peer url accept false).run world :=
        run_call_of_answer (by simp [hvalue])
      refine ⟨ms, hrun ▸ htells, ?_⟩
      rw [hrun, hvalue]
      exact .noToken hgets
    | ok token =>
      by_cases hanswer : ∀ response,
          ((Transport.sendWithToken peer url accept false).run world).value = .ok response →
            response.status ≠ forbidden
      · rw [run_call_of_answer hanswer]
        exact ⟨_, hfirst, .answered hgets hanswer⟩
      · simp only [not_forall, not_not] at hanswer
        obtain ⟨refusal, hvalue, hrefusal⟩ := hanswer
        simp only [hvalue] at hfirst
        have hkept := (hgets.kept_of_tells hfirst)
        obtain ⟨ms', outcome, hgets', hsecond⟩ := sendWithToken_gets peer url accept true
          ((Transport.sendWithToken peer url accept false).run world).state
        rw [hkept] at hgets'
        obtain rfl := hgets'.eq_fetched
        have hreport := hfirst.append_silent (.report .info .transport
          "Access token rejected (HTTP 403), refreshing")
        rw [run_call_of_refusal hvalue hrefusal]
        cases outcome with
        | error e =>
          obtain ⟨htells, hvalue'⟩ := hsecond
          have hall := hreport.append htells
          simp only [List.append_assoc, List.singleton_append] at hall
          have htakes : CallTakes url accept .bearer world.cache _ (.error (.auth e)) :=
            .notRenewed hgets hrefusal
          exact ⟨_, hall, hvalue' ▸ htakes⟩
        | ok fresh =>
          have hall := hreport.append hsecond
          simp only [List.append_assoc, List.singleton_append] at hall
          exact ⟨_, hall, .resent hgets hrefusal⟩

/-! ## Calls with retries -/

/-- The ways that a call with retries can go, with what it comes to: calls with delays between them,
up to one whose outcome is final or the last one that the policy allows. -/
inductive RetryTakes (url : Url) (accept : MediaType) (credentials : Credentials) :
    Option String → List Moment → Outcome → Prop
  | final {kept : Option String} {ms : List Moment} {outcome : Outcome}
      (hcall : CallTakes url accept credentials kept ms outcome) (h : mayPass outcome = false) :
      RetryTakes url accept credentials kept ms outcome
  | exhausted {kept : Option String} {ms : List Moment} {outcome : Outcome} (attempts : Nat)
      (hcall : CallTakes url accept credentials kept ms outcome) (h : mayPass outcome = true) :
      RetryTakes url accept credentials kept ms (.error (.exhausted attempts (failure outcome)))
  | again {kept : Option String} {first rest : List Moment} {outcome last : Outcome}
      (delay : Duration) (hcall : CallTakes url accept credentials kept first outcome)
      (h : mayPass outcome = true)
      (hrest : RetryTakes url accept credentials ((newest first).or kept) rest last) :
      RetryTakes url accept credentials kept (first ++ .slept delay :: rest) last

section Attempts

variable {path : String} {policy : Policy} {left retry : Nat}

/-- A report that an outcome is final tells of nothing. -/
private theorem tells_closing (outcome : Outcome) :
    Tells peer world ⟨outcome, Transport.closing path outcome, world⟩ [] := by
  cases outcome <;> exact ⟨fun _ ↦ by simp [Transport.closing, moments], rfl⟩

/-- So does a report that all attempts are used. -/
private theorem tells_surrender (outcome : Outcome) (e : Transport.Error) :
    Tells peer world ⟨outcome, Transport.surrender path e, world⟩ [] :=
  ⟨fun _ ↦ by simp [Transport.surrender, moments], rfl⟩

/-- A pause tells of the delay. -/
private theorem tells_pause (peer : Peer σ) (world : World σ) (path : String) (policy : Policy)
    (retry : Nat) (e : Transport.Error) :
    Tells peer world ⟨(), Transport.pauseTrace path policy retry e, world⟩
      [.slept (policy.delay retry)] :=
  ⟨fun _ ↦ by simp [Transport.pauseTrace, moments], rfl⟩

/-- Every loop of attempts goes one of these ways. -/
theorem attempt_takes (peer : Peer σ) (credentials : Credentials) (url : Url) (accept : MediaType)
    (path : String) (policy : Policy) (left retry : Nat) (world : World σ) :
    let r := (Transport.attempt (Transport.call peer credentials url accept) path policy left
      retry).run world
    ∃ ms, Tells peer world r ms ∧ RetryTakes url accept credentials world.cache ms r.value := by
  induction left generalizing retry world with
  | zero =>
    obtain ⟨ms, htells, htakes⟩ := call_takes peer credentials url accept world
    cases hpass : mayPass ((Transport.call peer credentials url accept).run world).value with
    | false =>
      rw [Transport.attempt_of_final hpass]
      exact ⟨ms, htells.append_silent (tells_closing _), .final htakes hpass⟩
    | true =>
      rw [Transport.attempt_zero_of_mayPass hpass]
      exact ⟨ms, htells.append_silent (tells_surrender _ _), .exhausted _ htakes hpass⟩
  | succ left ih =>
    obtain ⟨ms, htells, htakes⟩ := call_takes peer credentials url accept world
    cases hpass : mayPass ((Transport.call peer credentials url accept).run world).value with
    | false =>
      rw [Transport.attempt_of_final hpass]
      exact ⟨ms, htells.append_silent (tells_closing _), .final htakes hpass⟩
    | true =>
      rw [Transport.attempt_succ_of_mayPass hpass]
      obtain ⟨rest, hrest, htakes'⟩ := ih (retry + 1)
        ((Transport.call peer credentials url accept).run world).state
      have hpause := tells_pause peer
        ((Transport.call peer credentials url accept).run world).state path policy (retry + 1)
        (failure ((Transport.call peer credentials url accept).run world).value)
      have hall := (htells.append hpause).append hrest
      rw [htells.cache_eq] at htakes'
      refine ⟨_, ?_, .again (policy.delay (retry + 1)) htakes hpass htakes'⟩
      rwa [← List.singleton_append, ← List.append_assoc]

end Attempts

/-- Every call with retries goes one of these ways. -/
theorem callWithRetry_takes (peer : Peer σ) (credentials : Credentials) (policy : Policy)
    (url : Url) (accept : MediaType) (world : World σ) :
    let r := (Transport.callWithRetry peer credentials policy url accept).run world
    ∃ ms, Tells peer world r ms ∧ RetryTakes url accept credentials world.cache ms r.value :=
  attempt_takes peer credentials url accept _ policy policy.retries 0 world

/-! ## Requests of a call -/

/-- The answer that grants a request. -/
def granted? : Outcome → Option Http.Response
  | .ok response => if response.isSuccess then some response else none
  | .error _ => none

/-- Where a request is granted, what was asked for and the answer. -/
def Moment.granted? : Moment → Option (Url × Http.Response)
  | sent _ request outcome => (Session.granted? outcome).map (request.url, ·)
  | _ => none

/-- Where a request is sent, the URL that it asks for. -/
def Moment.url? : Moment → Option Url
  | sent _ request _ => some request.url
  | _ => none

variable {credentials : Credentials} {kept : Option String} {outcome : Outcome}

/-- An outcome that may pass grants nothing. -/
theorem granted?_of_mayPass (h : mayPass outcome = true) : granted? outcome = none := by
  cases outcome with
  | error e => rfl
  | ok response =>
    have hstatus : 500 ≤ response.status := by simpa [mayPass] using h
    have hrefused : response.isSuccess = false := by
      simp only [Http.Response.isSuccess, Bool.and_eq_false_iff, decide_eq_false_iff_not]
      omega
    simp [granted?, hrefused]

/-- Neither does a refusal. -/
theorem granted?_of_forbidden {refusal : Http.Response} (h : refusal.status = forbidden) :
    granted? (.ok refusal) = none := by
  have hrefused : refusal.isSuccess = false := by
    simp [Http.Response.isSuccess, h, forbidden]
  simp [granted?, hrefused]

/-- No request is sent to get a token. -/
theorem Gets.not_sent {refresh : Bool} {got : Except Token.Error String}
    (h : Gets refresh kept ms got) {m : Moment} (hm : m ∈ ms) :
    ∃ kept got, m = .fetched kept got := by
  cases h with
  | kept => simp at hm
  | fetched => exact ⟨_, _, List.mem_singleton.mp hm⟩

private theorem Gets.filterMap_granted? {refresh : Bool} {got : Except Token.Error String}
    (h : Gets refresh kept ms got) : ms.filterMap Moment.granted? = [] := by
  cases h <;> rfl

/-- Every request of a call goes to its URL. -/
theorem CallTakes.url_eq (h : CallTakes url accept credentials kept ms outcome) :
    ∀ kept request outcome, .sent kept request outcome ∈ ms → request.url = url := by
  intro kept' request outcome' hm
  cases h with
  | basic =>
    simp only [List.mem_singleton, Moment.sent.injEq] at hm
    exact hm.2.1 ▸ rfl
  | noToken hfirst =>
    obtain ⟨_, _, hfetched⟩ := hfirst.not_sent hm
    cases hfetched
  | answered hfirst | notRenewed hfirst | resent hfirst =>
    rcases List.mem_append.mp hm with hm | hm
    · obtain ⟨_, _, hfetched⟩ := hfirst.not_sent hm
      cases hfetched
    · simp only [List.mem_cons, List.not_mem_nil, or_false, Moment.sent.injEq, reduceCtorEq,
        false_or] at hm
      grind

/-- A request that is sent is granted by what comes of it. -/
theorem filterMap_granted?_sent (kept : Option String) (request : Http.Request)
    (outcome : Outcome) (rest : List Moment) :
    (Moment.sent kept request outcome :: rest).filterMap Moment.granted? =
      ((granted? outcome).map (request.url, ·)).toList ++ rest.filterMap Moment.granted? := by
  cases hgranted : granted? outcome <;> simp [Moment.granted?, hgranted]

/-- A call is granted at most once, where it comes to the answer. -/
theorem CallTakes.filterMap_granted? (h : CallTakes url accept credentials kept ms outcome) :
    ms.filterMap Moment.granted? = ((granted? outcome).map (url, ·)).toList := by
  have hlast (kept : Option String) (authorization : Http.Authorization) (outcome : Outcome) :
      [Moment.sent kept ⟨url, accept, authorization⟩ outcome].filterMap Moment.granted? =
        ((granted? outcome).map (url, ·)).toList := by
    rw [filterMap_granted?_sent, List.filterMap_nil, List.append_nil]
  cases h with
  | basic => exact hlast _ _ _
  | noToken hfirst => exact hfirst.filterMap_granted?
  | answered hfirst =>
    rw [List.filterMap_append, hfirst.filterMap_granted?, hlast, List.nil_append]
  | notRenewed hfirst hrefusal =>
    rw [List.filterMap_append, hfirst.filterMap_granted?, filterMap_granted?_sent,
      granted?_of_forbidden hrefusal]
    rfl
  | resent hfirst hrefusal =>
    rw [List.filterMap_append, hfirst.filterMap_granted?, filterMap_granted?_sent,
      granted?_of_forbidden hrefusal]
    exact hlast _ _ _

/-- Every request of a call with retries goes to its URL. -/
theorem RetryTakes.url_eq (h : RetryTakes url accept credentials kept ms outcome) :
    ∀ kept request outcome, .sent kept request outcome ∈ ms → request.url = url := by
  induction h with
  | final hcall | exhausted _ hcall => exact hcall.url_eq
  | again delay hcall _ _ ih =>
    intro kept request outcome hm
    rcases List.mem_append.mp hm with hm | hm
    · exact hcall.url_eq kept request outcome hm
    · exact ih kept request outcome (by simpa using hm)

/-- So is a call with retries: what may pass grants nothing. -/
theorem RetryTakes.filterMap_granted? (h : RetryTakes url accept credentials kept ms outcome) :
    ms.filterMap Moment.granted? = ((granted? outcome).map (url, ·)).toList := by
  induction h with
  | final hcall => exact hcall.filterMap_granted?
  | exhausted _ hcall hpass =>
    rw [hcall.filterMap_granted?, granted?_of_mayPass hpass]
    rfl
  | again delay hcall hpass _ ih =>
    rw [List.filterMap_append, hcall.filterMap_granted?, granted?_of_mayPass hpass,
      List.filterMap_cons, ih]
    rfl

end Harvest.Session

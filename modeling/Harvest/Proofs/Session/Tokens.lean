import Harvest.Proofs.Session.Operations
import Mathlib.Data.List.DropRight

/-!
# Which token a session keeps

A session starts without a token. From then on it keeps the token that was stored last, until it is
asked to drop it, and every request that needs a token carries the one that is kept. A token is
fetched only where none is kept, where the first answer of a call refuses the one that was sent, or
where a fresh one is asked for.
Design: `SPEC_FULL.md:58–60,120–123`.
-/

namespace Harvest.Session

open Http (Authorization MediaType)
open Transport (Credentials Outcome forbidden)

variable {σ : Type} {past ms ms' : List Moment} {m : Moment} {credentials : Credentials}

/-! ## Histories -/

/-- What happens in a session, from a world on. -/
def history (s : Service σ) : World σ → List Operation → List Moment
  | _, [] => []
  | world, operation :: operations =>
    let performed := (s.perform operation).run world
    .asked operation ::
      (moments s.peer 0 world performed.trace ++ history s performed.state operations)

/-- Whether a moment is not a request to drop the token. -/
def Moment.isNoDrop : Moment → Bool
  | asked .invalidate => false
  | _ => true

/-- The token that is kept after a history that starts without one: the newest of those that were
stored since the last request to drop the token. -/
def keptAfter (history : List Moment) : Option String := newest (history.rtakeWhile Moment.isNoDrop)

/-- Whether a moment lies within a call: calls follow on requests for operations and on delays. -/
def Moment.isWithinCall : Moment → Bool
  | asked _ | slept _ => false
  | _ => true

/-- What has come of the requests of the call that a history ends with. -/
def callOutcomes (history : List Moment) : List Outcome :=
  (history.rtakeWhile Moment.isWithinCall).filterMap fun
    | .sent _ _ outcome => some outcome
    | _ => none

/-- How a request is authorized where a token may be kept. -/
def AuthorizedBy : Credentials → Option String → Authorization → Prop
  | .basic username password, _, authorization => authorization = .basic username password
  | .bearer, kept, authorization => ∃ token, kept = some token ∧ authorization = .bearer token

/-- Whether the last moment of a history gives a reason to fetch a token: none is kept, a fresh one
is asked for, or the first request of a call has just been refused. -/
def CallsForToken (history : List Moment) : Prop :=
  keptAfter history = none ∨ history.getLast? = some (.asked (.token true)) ∨
    ∃ refusal : Http.Response, refusal.status = forbidden ∧ callOutcomes history = [.ok refusal]

/-- Whether a moment may come after a history: the kept token is the one of the history, a request
carries it, and a fetch has a reason. -/
def MayFollow (credentials : Credentials) (past : List Moment) : Moment → Prop
  | .sent token request _ =>
    token = keptAfter past ∧ AuthorizedBy credentials token request.authorization
  | .fetched token _ => token = keptAfter past ∧ CallsForToken past
  | _ => True

/-- Whether moments may come one after another after a history. -/
def MayFollowAll (credentials : Credentials) (past ms : List Moment) : Prop :=
  ∀ before m after, ms = before ++ m :: after → MayFollow credentials (past ++ before) m

/-! ## One moment more -/

private theorem keptAfter_concat (past : List Moment) (m : Moment) :
    keptAfter (past ++ [m]) = if m.isNoDrop then m.stored?.or (keptAfter past) else none := by
  cases h : m.isNoDrop with
  | false => simp [keptAfter, newest, List.rtakeWhile_concat_neg, h]
  | true =>
    rw [keptAfter, List.rtakeWhile_concat_pos _ _ _ h, newest_append]
    cases hm : m.stored? <;> simp [newest, keptAfter, hm]

private theorem callOutcomes_concat (past : List Moment) (m : Moment) :
    callOutcomes (past ++ [m]) =
      match m with
      | .asked _ | .slept _ => []
      | .sent _ _ outcome => callOutcomes past ++ [outcome]
      | .fetched _ _ => callOutcomes past := by
  cases m <;> simp [callOutcomes, List.rtakeWhile_concat, Moment.isWithinCall]

/-- Where nothing asks to drop the token, the newest one of some moments is kept. -/
theorem keptAfter_append (h : ∀ m ∈ ms, m.isNoDrop = true) :
    keptAfter (past ++ ms) = (newest ms).or (keptAfter past) := by
  induction ms generalizing past with
  | nil => rw [List.append_nil]; rfl
  | cons m ms ih =>
    have hm : m.isNoDrop = true := h m List.mem_cons_self
    have hnewest : newest (m :: ms) = (newest ms).or m.stored? := by
      rw [← List.singleton_append, newest_append]
      cases hs : m.stored? <;> simp [newest, hs]
    rw [List.append_cons, ih fun m' hm' ↦ h m' (List.mem_cons_of_mem _ hm'), keptAfter_concat,
      if_pos hm, hnewest, Option.or_assoc]

private theorem mayFollowAll_nil : MayFollowAll credentials past [] := by
  intro before m after h
  simp at h

private theorem mayFollowAll_cons : MayFollowAll credentials past (m :: ms) ↔
    MayFollow credentials past m ∧ MayFollowAll credentials (past ++ [m]) ms := by
  constructor
  · intro h
    refine ⟨by simpa using h [] m ms rfl, fun before m' after hms ↦ ?_⟩
    simpa using h (m :: before) m' after (by rw [hms, List.cons_append])
  · rintro ⟨hm, hms⟩ before m' after heq
    cases before with
    | nil =>
      obtain ⟨rfl, rfl⟩ := List.cons.inj heq
      simpa using hm
    | cons first before =>
      obtain ⟨rfl, rfl⟩ := List.cons.inj heq
      simpa using hms before m' after rfl

private theorem mayFollowAll_append : MayFollowAll credentials past (ms ++ ms') ↔
    MayFollowAll credentials past ms ∧ MayFollowAll credentials (past ++ ms) ms' := by
  induction ms generalizing past with
  | nil => simp [mayFollowAll_nil]
  | cons m ms ih =>
    rw [List.cons_append, mayFollowAll_cons, mayFollowAll_cons, ih, and_assoc, List.append_assoc,
      List.singleton_append]

/-! ## Calls -/

variable {url : Url} {accept : MediaType} {token : Option String} {outcome : Outcome}

/-- To get a token is to keep it, and to fetch it only where there is a reason. -/
theorem Gets.mayFollowAll {refresh : Bool} {got : Except Token.Error String}
    (h : Gets refresh token ms got) (hkept : keptAfter past = token)
    (hreason : refresh = true → CallsForToken past) : MayFollowAll credentials past ms := by
  cases h with
  | kept => exact mayFollowAll_nil
  | fetched hfetched =>
    refine mayFollowAll_cons.mpr ⟨⟨hkept.symm, ?_⟩, mayFollowAll_nil⟩
    exact hfetched.elim hreason fun hnone ↦ .inl (hkept.trans hnone)

/-- Behind it the token is kept, and nothing has come of any request yet. -/
theorem Gets.after {refresh : Bool} {fresh : String} (h : Gets refresh token ms (.ok fresh))
    (hkept : keptAfter past = token) :
    keptAfter (past ++ ms) = some fresh ∧ callOutcomes (past ++ ms) = callOutcomes past := by
  cases h with
  | kept => simpa using hkept
  | fetched => simp [keptAfter_concat, callOutcomes_concat, Moment.isNoDrop, Moment.stored?]

private theorem Gets.isNoDrop {refresh : Bool} {got : Except Token.Error String}
    (h : Gets refresh token ms got) : ∀ m ∈ ms, m.isNoDrop = true := by
  cases h <;> simp [Moment.isNoDrop]

private theorem CallTakes.isNoDrop (h : CallTakes url accept credentials token ms outcome) :
    ∀ m ∈ ms, m.isNoDrop = true := by
  cases h with
  | basic => simp [Moment.isNoDrop]
  | noToken hfirst => exact hfirst.isNoDrop
  | answered hfirst | notRenewed hfirst | resent hfirst =>
    intro m hm
    rcases List.mem_append.mp hm with hm | hm
    · exact hfirst.isNoDrop m hm
    · simp only [List.mem_cons, List.not_mem_nil, or_false] at hm
      grind [Moment.isNoDrop]

/-- A request that is sent with a token that is got, and refused, is a reason to fetch another. -/
theorem Gets.mayFollow_refused {fresh : String} {refusal : Http.Response}
    {got : Except Token.Error String} (h : Gets false token ms (.ok fresh))
    (hrefusal : refusal.status = forbidden) (hkept : keptAfter past = token)
    (hstart : callOutcomes past = []) :
    MayFollow credentials
      (past ++ ms ++ [.sent (some fresh) ⟨url, accept, .bearer fresh⟩ (.ok refusal)])
      (.fetched (some fresh) got) := by
  obtain ⟨hkept', hstart'⟩ := h.after hkept
  refine ⟨?_, .inr (.inr ⟨refusal, hrefusal, ?_⟩)⟩
  · rw [keptAfter_concat, hkept']
    rfl
  · rw [callOutcomes_concat, hstart', hstart]
    rfl

/-- What happens in a call may happen there. -/
theorem CallTakes.mayFollowAll (h : CallTakes url accept credentials token ms outcome)
    (hkept : keptAfter past = token) (hstart : callOutcomes past = []) :
    MayFollowAll credentials past ms := by
  cases h with
  | basic => exact mayFollowAll_cons.mpr ⟨⟨hkept.symm, rfl⟩, mayFollowAll_nil⟩
  | noToken hfirst => exact hfirst.mayFollowAll hkept nofun
  | answered hfirst hanswer =>
    obtain ⟨hkept', -⟩ := hfirst.after hkept
    refine mayFollowAll_append.mpr ⟨hfirst.mayFollowAll hkept nofun, ?_⟩
    exact mayFollowAll_cons.mpr ⟨⟨hkept'.symm, _, rfl, rfl⟩, mayFollowAll_nil⟩
  | notRenewed hfirst hrefusal =>
    obtain ⟨hkept', -⟩ := hfirst.after hkept
    refine mayFollowAll_append.mpr ⟨hfirst.mayFollowAll hkept nofun, ?_⟩
    refine mayFollowAll_cons.mpr ⟨⟨hkept'.symm, _, rfl, rfl⟩, ?_⟩
    exact mayFollowAll_cons.mpr
      ⟨hfirst.mayFollow_refused hrefusal hkept hstart, mayFollowAll_nil⟩
  | resent hfirst hrefusal =>
    obtain ⟨hkept', -⟩ := hfirst.after hkept
    refine mayFollowAll_append.mpr ⟨hfirst.mayFollowAll hkept nofun, ?_⟩
    refine mayFollowAll_cons.mpr ⟨⟨hkept'.symm, _, rfl, rfl⟩, ?_⟩
    refine mayFollowAll_cons.mpr ⟨hfirst.mayFollow_refused hrefusal hkept hstart, ?_⟩
    refine mayFollowAll_cons.mpr ⟨⟨?_, _, rfl, rfl⟩, mayFollowAll_nil⟩
    rw [keptAfter_concat]
    rfl

private theorem RetryTakes.isNoDrop (h : RetryTakes url accept credentials token ms outcome) :
    ∀ m ∈ ms, m.isNoDrop = true := by
  induction h with
  | final hcall | exhausted _ hcall => exact hcall.isNoDrop
  | again delay hcall _ _ ih =>
    intro m hm
    rcases List.mem_append.mp hm with hm | hm
    · exact hcall.isNoDrop m hm
    · rcases List.mem_cons.mp hm with rfl | hm
      · rfl
      · exact ih m hm

/-- What happens in a call with retries may happen there: each of its calls starts anew. -/
theorem RetryTakes.mayFollowAll (h : RetryTakes url accept credentials token ms outcome)
    (hkept : keptAfter past = token) (hstart : callOutcomes past = []) :
    MayFollowAll credentials past ms := by
  induction h generalizing past with
  | final hcall | exhausted _ hcall => exact hcall.mayFollowAll hkept hstart
  | again delay hcall _ _ ih =>
    refine mayFollowAll_append.mpr ⟨hcall.mayFollowAll hkept hstart, ?_⟩
    refine mayFollowAll_cons.mpr ⟨trivial, ih ?_ ?_⟩
    · rw [keptAfter_concat, keptAfter_append hcall.isNoDrop, hkept]
      rfl
    · rw [callOutcomes_concat]

private theorem Converses.isNoDrop (h : Converses credentials token ms) :
    ∀ m ∈ ms, m.isNoDrop = true := by
  obtain ⟨url, accept, outcome, hcall | hretry⟩ := h
  · exact hcall.isNoDrop
  · exact hretry.isNoDrop

private theorem Converses.mayFollowAll (h : Converses credentials token ms)
    (hkept : keptAfter past = token) (hstart : callOutcomes past = []) :
    MayFollowAll credentials past ms := by
  obtain ⟨url, accept, outcome, hcall | hretry⟩ := h
  · exact hcall.mayFollowAll hkept hstart
  · exact hretry.mayFollowAll hkept hstart

/-! ## Operations -/

variable {world : World σ}

/-- Whether what an operation does, run in a world, may happen after a history, and the history
tells which token is kept then. -/
structure GoesOn (s : Service σ) (past : List Moment) (world : World σ) (operation : Operation) :
    Prop where
  mayFollowAll : MayFollowAll s.credentials (past ++ [.asked operation])
    (moments s.peer 0 world ((s.perform operation).run world).trace)
  keptAfter_eq : keptAfter (past ++ [.asked operation] ++
    moments s.peer 0 world ((s.perform operation).run world).trace) =
      ((s.perform operation).run world).state.cache

variable {s : Service σ} {operation : Operation}

/-- An operation that neither drops nor stores a token goes on with its moments. -/
theorem goesOn_of_tells (hkept : keptAfter (past ++ [.asked operation]) = world.cache)
    (htells : Tells s.peer world ((s.perform operation).run world) ms)
    (hdrop : ∀ m ∈ ms, m.isNoDrop = true)
    (hfollow : MayFollowAll s.credentials (past ++ [.asked operation]) ms) :
    GoesOn s past world operation := by
  constructor
  · rwa [htells.moments_eq]
  · rw [htells.moments_eq, keptAfter_append hdrop, hkept, htells.cache_eq]

private theorem goesOn_of_calls (hkept : keptAfter past = world.cache)
    (h : operation.calls = true) :
    GoesOn s past world operation := by
  have hasked : keptAfter (past ++ [.asked operation]) = world.cache := by
    rw [keptAfter_concat, ← hkept]
    cases operation <;> first | rfl | simp [Operation.calls] at h
  obtain ⟨ms, htells, hconverses⟩ := s.perform_isConversation h world
  exact goesOn_of_tells hasked htells hconverses.isNoDrop
    (hconverses.mayFollowAll hasked (callOutcomes_concat _ _))

private theorem goesOn_token (hkept : keptAfter past = world.cache) (refresh : Bool) :
    GoesOn s past world (.token refresh) := by
  have hasked : keptAfter (past ++ [.asked (.token refresh)]) = world.cache := by
    rw [keptAfter_concat, ← hkept]
    rfl
  obtain ⟨ms, htells, hgets⟩ := get_gets s.peer refresh world
  refine goesOn_of_tells hasked (htells.bind fun _ ↦ silent_pure _) hgets.isNoDrop ?_
  refine hgets.mayFollowAll hasked ?_
  rintro rfl
  exact .inr (.inl List.getLast?_concat)

/-- To drop and to store a token leaves no moments of its own. -/
theorem goesOn_invalidate : GoesOn s past world .invalidate := by
  have hnone : moments s.peer 0 world ((s.perform .invalidate).run world).trace = [] := by
    exact (moments.eq_1 ..)
  constructor
  · rw [hnone]
    exact mayFollowAll_nil
  · rw [hnone, List.append_nil, keptAfter_concat]
    rfl

private theorem goesOn_store (token : String) : GoesOn s past world (.store token) := by
  have hnone : moments s.peer 0 world ((s.perform (.store token)).run world).trace = [] := by
    exact (moments.eq_1 ..)
  constructor
  · rw [hnone]
    exact mayFollowAll_nil
  · rw [hnone, List.append_nil, keptAfter_concat]
    rfl

/-- Every operation goes on from a history that tells which token is kept. -/
theorem goesOn (s : Service σ) (hkept : keptAfter past = world.cache) (operation : Operation) :
    GoesOn s past world operation := by
  cases operation with
  | token refresh => exact goesOn_token hkept refresh
  | invalidate => exact goesOn_invalidate
  | store token => exact goesOn_store token
  | check | count | entities | metadata | probe | page | call | callWithRetry =>
    exact goesOn_of_calls hkept rfl

/-! ## Sessions -/

/-- What happens in a session may happen there, and tells which token is kept at the end. -/
theorem history_goesOn (s : Service σ) (past : List Moment) (world : World σ)
    (operations : List Operation) (hkept : keptAfter past = world.cache) :
    MayFollowAll s.credentials past (history s world operations) ∧
      keptAfter (past ++ history s world operations) =
        ((s.session operations).run world).state.cache := by
  induction operations generalizing past world with
  | nil => exact ⟨mayFollowAll_nil, by simpa [history, Service.session] using hkept⟩
  | cons operation operations ih =>
    obtain ⟨hfollow, hkept'⟩ := goesOn s hkept operation
    obtain ⟨hrest, hend⟩ := ih _ _ hkept'
    constructor
    · exact mayFollowAll_cons.mpr ⟨trivial, mayFollowAll_append.mpr ⟨hfollow, hrest⟩⟩
    · rw [history, List.append_cons, ← List.append_assoc, hend]
      rfl

/-- What happens in a session is what its trace tells. -/
theorem filterMap_event?_history (h : Quiet s.peer) (world : World σ)
    (operations : List Operation) : (history s world operations).filterMap Moment.event? =
      ((s.session operations).run world).trace.filter isTold := by
  induction operations generalizing world with
  | nil => rfl
  | cons operation operations ih =>
    have htrace : ((s.session (operation :: operations)).run world).trace =
        ((s.perform operation).run world).trace ++
          ((s.session operations).run ((s.perform operation).run world).state).trace := by
      simp [Service.session, Act.run_bind]
    rw [history, List.filterMap_cons, htrace, List.filter_append, ← ih]
    simp [Moment.event?, filterMap_event?_moments h]

/-- A fetch that fails leaves the kept token in its place. -/
theorem cache_of_renew_error {e : Token.Error}
    (h : ((Token.renew s.peer).run world).value = .error e) :
    ((Token.renew s.peer).run world).state.cache = world.cache := by
  rw [run_renew] at h ⊢
  simp_all [Except.toOption]

/-- With basic credentials a call neither fetches a token nor changes the one that is kept. -/
theorem Converses.of_basic {username password : String}
    (h : Converses (.basic username password) token ms) :
    newest ms = none ∧ ∀ m ∈ ms, ∀ kept got, m ≠ .fetched kept got := by
  have hcall {url : Url} {accept : MediaType} {token : Option String} {ms : List Moment}
      {outcome : Outcome} (h : CallTakes url accept (.basic username password) token ms outcome) :
      newest ms = none ∧ ∀ m ∈ ms, ∀ kept got, m ≠ .fetched kept got := by
    cases h
    exact ⟨rfl, by simp⟩
  obtain ⟨url, accept, outcome, htakes | htakes⟩ := h
  · exact hcall htakes
  · induction htakes with
    | final htakes | exhausted _ htakes => exact hcall htakes
    | again delay htakes _ _ ih =>
      obtain ⟨hnewest, hfetched⟩ := hcall htakes
      obtain ⟨hnewest', hfetched'⟩ := ih
      constructor
      · rw [← List.singleton_append, newest_append, newest_append, hnewest, hnewest']
        rfl
      · intro m hm
        rcases List.mem_append.mp hm with hm | hm
        · exact hfetched m hm
        · rcases List.mem_cons.mp hm with rfl | hm
          · simp
          · exact hfetched' m hm

/-- In every session the token that is kept is the one that was stored last and not dropped since,
every request is authorized by the credentials with the token that is kept when it is sent, and
tokens are fetched only where there is a reason. A fetch that fails changes nothing of what is
kept, and with basic credentials no call fetches a token or changes it. -/
theorem session_keeps_newest (s : Service σ) (peer : σ) (operations : List Operation) :
    let happened := history s ⟨peer, none⟩ operations
    let r := (s.session operations).run ⟨peer, none⟩
    (Quiet s.peer → happened.filterMap Moment.event? = r.trace.filter isTold) ∧
    r.state.cache = keptAfter happened ∧
    MayFollowAll s.credentials [] happened ∧
    (∀ world e, ((Token.renew s.peer).run world).value = .error e →
      ((Token.renew s.peer).run world).state.cache = world.cache) ∧
    ∀ username password, s.credentials = .basic username password →
      ∀ operation world, operation.calls = true →
        let performed := (s.perform operation).run world
        performed.state.cache = world.cache ∧
          ∀ m ∈ moments s.peer 0 world performed.trace, ∀ kept got, m ≠ .fetched kept got := by
  obtain ⟨hfollow, hkept⟩ := history_goesOn s [] ⟨peer, none⟩ operations rfl
  refine ⟨fun hquiet ↦ filterMap_event?_history hquiet _ operations, hkept.symm, hfollow,
    fun world e ↦ cache_of_renew_error, ?_⟩
  intro username password hbasic operation world hcalls
  obtain ⟨ms, htells, hconverses⟩ := s.perform_isConversation hcalls world
  rw [hbasic] at hconverses
  obtain ⟨hnewest, hfetched⟩ := hconverses.of_basic
  constructor
  · rw [htells.cache_eq, hnewest, Option.none_or]
  · rwa [htells.moments_eq]

/-- A peer that gives the answers and hands out the tokens of two lists. -/
def listed : Peer (List Outcome × List (Except Token.Error String)) where
  send _ := Act.step fun
    | (outcome :: outcomes, tokens) => (outcome, outcomes, tokens)
    | ([], tokens) => (.error (.request "" false), [], tokens)
  fetchToken := Act.step fun
    | (outcomes, token :: tokens) => (token, outcomes, tokens)
    | (outcomes, []) => (.error (.malformed ""), outcomes, [])

private theorem quiet_listed : Quiet listed := ⟨fun _ _ ↦ rfl, fun _ ↦ rfl⟩

/-- A token that is refused is kept where no other is granted, and replaced where one is. -/
theorem session_keeps_newest_refused :
    let u : Url := ⟨"http".toList, none, .segments [], none, none⟩
    let s : Service (List Outcome × List (Except Token.Error String)) :=
      ⟨⟨u, Query.empty⟩, listed, .bearer, .standard⟩
    let answer (status : Nat) : Outcome := .ok ⟨status, "", none, []⟩
    let peer := ([answer 200, answer 403, answer 403, answer 200],
      [.ok "a", .error (.malformed "" ), .ok "b"])
    let operations := [.call u Http.json, .check, .probe]
    let happened := history s ⟨peer, none⟩ operations
    let r := (s.session operations).run ⟨peer, none⟩
    happened.filterMap Moment.event? = r.trace.filter isTold ∧
      (Event.requests r.trace).map (·.authorization) =
        [.bearer "a", .bearer "a", .bearer "a", .bearer "b"] ∧
      r.state.cache = keptAfter happened ∧ keptAfter happened = some "b" ∧
      MayFollowAll .bearer [] happened := by
  intro u s answer peer operations
  have h := session_keeps_newest s peer operations
  exact ⟨h.1 quiet_listed, by decide +kernel, h.2.1, by decide +kernel, h.2.2.1⟩

end Harvest.Session

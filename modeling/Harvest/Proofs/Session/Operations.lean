import Harvest.Proofs.Session.Calls

/-!
# The moments of an operation

Every operation of a service is one call, with retries or without, and what is made of its answer
afterwards tells of nothing.
-/

namespace Harvest

open Http (MediaType)
open Transport (Credentials Outcome)

variable {σ α β : Type}

namespace Session

/-! ## Silent acts -/

/-- Whether an act tells of nothing, whatever world it is run in. -/
def Silent (act : Act (World σ) α) : Prop :=
  ∀ peer world, Tells peer world (act.run world) []

/-- To give a value tells of nothing. -/
theorem silent_pure (a : α) : Silent (pure a : Act (World σ) α) := fun _ _ ↦ .pure a

/-- A report before something silent is silent. -/
theorem silent_report_bind {level : Log.Level} {source : Log.Source} {text : String}
    {next : Unit → Act (World σ) α} (h : Silent (next ())) :
    Silent (Act.report level source text >>= next) := fun peer world ↦
  (Tells.report level source text).append (h peer world)

variable {peer : Peer σ} {world : World σ} {ms : List Moment}

/-- What is silent may follow. -/
theorem Tells.bind {act : Act (World σ) α} {next : α → Act (World σ) β}
    (h : Tells peer world (act.run world) ms) (hnext : ∀ a, Silent (next a)) :
    Tells peer world ((act >>= next).run world) ms :=
  h.append_silent (hnext _ _ _)

/-- A report may come before. -/
theorem Tells.log_bind {line : Log.Line} {next : Unit → Act (World σ) α}
    (h : Tells peer world ((next ()).run world) ms) :
    Tells peer world ((Act.emit (.log line) >>= next).run world) ms := by
  refine ⟨fun trace ↦ ?_, h.cache_eq⟩
  simpa [Act.run_bind, moments] using h.moments_append trace

/-! ## Calls of operations -/

/-- The moments of a single call or of one with retries, to any URL. -/
def Converses (credentials : Credentials) (kept : Option String) (ms : List Moment) : Prop :=
  ∃ url accept outcome, CallTakes url accept credentials kept ms outcome ∨
    RetryTakes url accept credentials kept ms outcome

/-- Whether an operation is a call, or calls: all are but those on the token that is kept. -/
def Operation.calls : Operation → Bool
  | .token _ | .invalidate | .store _ => false
  | _ => true

end Session

namespace Service

open Session

variable {world : World σ}

/-- A request with retries comes to an answer where it is granted. -/
theorem fetch_takes (s : Service σ) (operation : String) (url : Url) (accept : MediaType)
    (world : World σ) :
    let r := (s.fetch operation url accept).run world
    ∃ ms outcome, Tells s.peer world r ms ∧
      RetryTakes url accept s.credentials world.cache ms outcome ∧
      ∀ response, r.value = .ok response ↔ outcome = .ok response ∧ response.isSuccess = true := by
  obtain ⟨ms, htells, htakes⟩ :=
    callWithRetry_takes s.peer s.credentials s.policy url accept world
  refine ⟨ms, _, ?_, htakes, fun response ↦ ?_⟩
  · refine htells.bind fun outcome ↦ ?_
    cases outcome with
    | error e => exact silent_pure _
    | ok response =>
      simp only
      split <;> exact silent_pure _
  · simp only [fetch, Act.run_bind]
    cases ((Transport.callWithRetry s.peer s.credentials s.policy url accept).run world).value with
    | error e => simp
    | ok answer =>
      simp only
      split
      · next hgranted =>
        simp only [Act.run_pure, Except.ok.injEq]
        exact ⟨fun h ↦ ⟨h, h ▸ hgranted⟩, And.left⟩
      · next hrefused =>
        simp only [Act.run_pure, reduceCtorEq, Except.ok.injEq, false_iff, not_and]
        rintro rfl
        exact hrefused

/-- A request to an endpoint is one to its URL. -/
theorem fetchEndpoint_takes (s : Service σ) (operation : String) (endpoint : Endpoint)
    (accept : MediaType) (world : World σ) :
    let r := (s.fetchEndpoint operation endpoint accept).run world
    ∃ ms outcome, Tells s.peer world r ms ∧
      RetryTakes (s.endpoints.url endpoint) accept s.credentials world.cache ms outcome ∧
      ∀ response, r.value = .ok response ↔
        outcome = .ok response ∧ response.isSuccess = true := by
  obtain ⟨ms, outcome, htells, htakes, hvalue⟩ :=
    s.fetch_takes operation (s.endpoints.url endpoint) accept world
  exact ⟨ms, outcome, htells.log_bind, htakes, hvalue⟩

/-! ## Operations -/

/-- Whether an act, run in a world, is a single call or one with retries, as far as its moments
go. -/
def IsConversation (s : Service σ) (world : World σ) (act : Act (World σ) α) : Prop :=
  ∃ ms, Tells s.peer world (act.run world) ms ∧ Converses s.credentials world.cache ms

variable {s : Service σ}

/-- What is made of an answer is no call. -/
theorem IsConversation.bind {act : Act (World σ) α} {next : α → Act (World σ) β}
    (h : s.IsConversation world act) (hnext : ∀ a, Silent (next a)) :
    s.IsConversation world (act >>= next) := by
  obtain ⟨ms, htells, hconverses⟩ := h
  exact ⟨ms, htells.bind hnext, hconverses⟩

private theorem isConversation_call (s : Service σ) (url : Url) (accept : MediaType)
    (world : World σ) :
    s.IsConversation world (Transport.call s.peer s.credentials url accept) := by
  obtain ⟨ms, htells, htakes⟩ := call_takes s.peer s.credentials url accept world
  exact ⟨ms, htells, _, _, _, .inl htakes⟩

private theorem isConversation_callWithRetry (s : Service σ) (policy : Transport.Policy) (url : Url)
    (accept : MediaType) (world : World σ) :
    s.IsConversation world (Transport.callWithRetry s.peer s.credentials policy url accept) := by
  obtain ⟨ms, htells, htakes⟩ := callWithRetry_takes s.peer s.credentials policy url accept world
  exact ⟨ms, htells, _, _, _, .inr htakes⟩

private theorem isConversation_fetch (s : Service σ) (operation : String) (url : Url)
    (accept : MediaType) (world : World σ) :
    s.IsConversation world (s.fetch operation url accept) := by
  obtain ⟨ms, _, htells, htakes, -⟩ := s.fetch_takes operation url accept world
  exact ⟨ms, htells, _, _, _, .inr htakes⟩

private theorem isConversation_fetchEndpoint (s : Service σ) (operation : String)
    (endpoint : Endpoint) (accept : MediaType) (world : World σ) :
    s.IsConversation world (s.fetchEndpoint operation endpoint accept) := by
  obtain ⟨ms, _, htells, htakes, -⟩ := s.fetchEndpoint_takes operation endpoint accept world
  exact ⟨ms, htells, _, _, _, .inr htakes⟩

private theorem isConversation_checkConnection (s : Service σ) (world : World σ) :
    s.IsConversation world s.checkConnection := by
  refine (s.isConversation_call s.endpoints.base Http.json world).bind fun outcome ↦ ?_
  cases outcome with
  | error e => exact silent_pure _
  | ok response =>
    simp only
    split
    · exact silent_pure _
    · split
      · exact silent_pure _
      · exact silent_report_bind (silent_pure _)

private theorem isConversation_recordCount (s : Service σ) (world : World σ) :
    s.IsConversation world s.recordCount := by
  refine (s.isConversation_fetchEndpoint _ .count Http.plainText world).bind fun answer ↦ ?_
  cases answer with
  | error e => exact silent_pure _
  | ok response =>
    simp only
    cases readCount response.text with
    | error e => exact silent_pure _
    | ok n => exact silent_report_bind (silent_pure _)

private theorem isConversation_listEntities (s : Service σ) (world : World σ) :
    s.IsConversation world s.listEntities := by
  refine (s.isConversation_fetch _ s.endpoints.base Http.json world).bind fun answer ↦ ?_
  cases answer with
  | error e => exact silent_pure _
  | ok response =>
    simp only
    cases parseEntityList response.body with
    | error detail => exact silent_pure _
    | ok names => exact silent_report_bind (silent_pure _)

/-- Every operation that calls is one call, with retries or without. -/
theorem perform_isConversation (s : Service σ) {operation : Operation}
    (h : operation.calls = true) (world : World σ) :
    s.IsConversation world (s.perform operation) := by
  have hresult {α : Type} {act : Act (World σ) α} (f : α → Result)
      (h : s.IsConversation world act) :
      s.IsConversation world (act >>= fun a ↦ pure (f a)) := h.bind fun _ ↦ silent_pure _
  cases operation with
  | check => exact hresult .response (s.isConversation_checkConnection world)
  | count => exact hresult .count (s.isConversation_recordCount world)
  | entities => exact hresult .names (s.isConversation_listEntities world)
  | metadata => exact hresult .response (s.isConversation_fetchEndpoint _ _ _ world)
  | probe => exact hresult .response (s.isConversation_fetchEndpoint _ _ _ world)
  | page page => exact hresult .response (s.isConversation_fetchEndpoint _ _ _ world)
  | call url accept => exact hresult .outcome (s.isConversation_call url accept world)
  | callWithRetry url accept policy =>
    exact hresult .outcome (s.isConversation_callWithRetry policy url accept world)
  | token refresh => simp [Operation.calls] at h
  | invalidate => simp [Operation.calls] at h
  | store token => simp [Operation.calls] at h

end Service

end Harvest

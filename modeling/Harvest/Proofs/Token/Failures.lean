import Harvest.Proofs.Http.Attempts
import Harvest.Proofs.Session.Moments

/-!
# Failures on the way to a token

A call with a bearer token may have to fetch one first, with a form for an assertion and a form for
the token. A form can fail as any other request can: the connection is lost, the answer is cut off,
or the request cannot be written. A token error keeps the wording of such a failure and not its
kind, so it is taken for one that may pass whatever it was.
Design: `SPEC_FULL.md:165–168`.
-/

namespace Harvest

open Http (MediaType Server)
open Transport (Outcome mayPass)

variable {σ : Type}

namespace Http

/-- Why a client gets no whole answer. -/
inductive Fault where
  /-- There is no answer at all. -/
  | lost
  /-- The connection is closed within the answer. -/
  | cutOff
  /-- The request cannot be written. -/
  | unwritable
deriving DecidableEq, Repr

/-- What the client makes of a fault. -/
def Fault.error : Fault → Transport.Error
  | lost => .request sendingError true
  | cutOff => .request decodingError false
  | unwritable => .request builderError false

/-- Another attempt is worth while where a connection was lost. -/
theorem Fault.isRetryable_error (fault : Fault) :
    fault.error.isRetryable = decide (fault = .lost) := by
  cases fault <;> rfl

/-- Every error of a client, for a request or for a form, is that of a fault. -/
theorem exists_fault {proxy : Proxy} {writable : Bool} {query : Query} {server : Server}
    {e : Transport.Error} (h : ((exchange proxy writable query).run server).value = .error e) :
    ∃ fault : Fault, e = fault.error := by
  cases writable with
  | false =>
    obtain rfl : .request builderError false = e := Except.error.inj h
    exact ⟨.unwritable, rfl⟩
  | true =>
    have hreply : outcome (server.exchange ⟨query, proxy.login?⟩).1 = .error e := h
    generalize (server.exchange ⟨query, proxy.login?⟩).1 = reply? at hreply
    cases reply? with
    | none => exact ⟨.lost, (Except.error.inj hreply).symm⟩
    | some reply =>
      cases reply with
      | answer status version body => simp [outcome] at hreply
      | drop => exact ⟨.lost, (Except.error.inj hreply).symm⟩
      | cut status => exact ⟨.cutOff, (Except.error.inj hreply).symm⟩

end Http

/-! ## Exchanges -/

namespace Token

variable {x : Exchange} {post : Poster σ} {state : σ} {e : Transport.Error}

/-- An exchange fails for want of an answer: to the form for the assertion, or to the form for the
token. -/
inductive Exchange.FailsBy (x : Exchange) (post : Poster σ) (state : σ) (e : Transport.Error) :
    Prop
  | assertion (r : AssertionRequest) (hsigned : x.assertion = .signed r)
      (hpost : ((post r.tokenUrl.identityProvider r.form).run state).value = .error e)
  | token (assertion : String)
      (hassertion : ((assertionOf post x.assertion).run state).value = .ok assertion)
      (hpost : ((post x.tokenUrl (x.form assertion)).run
        ((assertionOf post x.assertion).run state).state).value = .error e)

/-- The assertion is missing where the form for it gets no answer. -/
theorem run_sign_of_error {r : AssertionRequest}
    (h : ((post r.tokenUrl.identityProvider r.form).run state).value = .error e) :
    ((sign post r).run state).value = .error (.unreachable e.message) := by
  simp only [sign, Act.run_bind, Act.run_report, Act.run_pure, h]
  rfl

/-- So is the token where the form for the token gets none. -/
theorem run_redeem_of_error {assertion : String}
    (h : ((post x.tokenUrl (x.form assertion)).run state).value = .error e) :
    ((x.redeem post assertion).run state).value = .error (.unreachable e.message) := by
  have hbody : grantedBody (.error e) >>= readToken = .error (.unreachable e.message) := rfl
  simp only [Exchange.redeem, Act.run_bind, h, hbody]
  rfl

/-- Either way the endpoint counts as one that was not reached. -/
theorem run_fetch_of_failsBy (hinput : x.missingInput = none) (h : x.FailsBy post state e) :
    ((x.fetch post).run state).value = .error (.unreachable e.message) := by
  simp only [Exchange.fetch, hinput, Act.run_bind]
  cases h with
  | assertion r hsigned hpost =>
    have hassertion : ((assertionOf post x.assertion).run state).value =
        .error (.unreachable e.message) := by
      rw [hsigned]
      exact run_sign_of_error hpost
    simp only [hassertion]
    rfl
  | token assertion hassertion hpost =>
    simp only [hassertion]
    exact run_redeem_of_error hpost

end Token

/-! ## Calls -/

namespace Transport

variable {peer : Peer σ} {url : Url} {accept : MediaType} {world : World σ}

/-- A call fetches a token in a state of its peer: at once where none is kept, or behind a request
that was refused. -/
inductive FetchesIn (peer : Peer σ) (url : Url) (accept : MediaType) : World σ → σ → Prop
  | unkept (state : σ) : FetchesIn peer url accept ⟨state, none⟩ state
  | refused {world : World σ} (refusal : Http.Response)
      (hvalue : ((sendWithToken peer url accept false).run world).value = .ok refusal)
      (hrefusal : refusal.status = forbidden) :
      FetchesIn peer url accept world
        ((sendWithToken peer url accept false).run world).state.peer

/-- A fetch that fails is what a request with a fresh token comes to. -/
theorem value_sendWithToken_of_fetch_error {refresh : Bool} {e : Token.Error}
    (hfresh : refresh = true ∨ world.cache = none)
    (h : (peer.fetchToken.run world.peer).value = .error e) :
    ((sendWithToken peer url accept refresh).run world).value = .error (.auth e) := by
  have hget : ((Token.get peer refresh).run world).value = .error e := by
    have hrenew : ((Token.renew peer).run world).value = .error e := by
      rw [Session.run_renew]
      exact h
    obtain ⟨state, cache⟩ := world
    rcases hfresh with rfl | rfl
    · exact hrenew
    · cases refresh <;> exact hrenew
  simp only [sendWithToken, Act.run_bind, hget]
  rfl

/-- A call comes to the token error of its fetch. -/
theorem value_call_of_fetch_error {state : σ} {e : Token.Error}
    (hfetches : FetchesIn peer url accept world state)
    (h : (peer.fetchToken.run state).value = .error e) :
    ((call peer .bearer url accept).run world).value = .error (.auth e) := by
  cases hfetches with
  | unkept state =>
    have hfirst : ((sendWithToken peer url accept false).run ⟨state, none⟩).value =
        .error (.auth e) := value_sendWithToken_of_fetch_error (.inr rfl) h
    simp only [call, Act.run_bind, hfirst]
    rfl
  | refused refusal hvalue hrefusal =>
    simp only [call, Act.run_bind, hvalue, hrefusal, if_true]
    exact value_sendWithToken_of_fetch_error (.inl rfl) h

/-- A call comes to the error of the request that it sends with the token that is kept. -/
theorem value_call_of_send_error {token : String} {e : Error} (hkept : world.cache = some token)
    (h : ((peer.send ⟨url, accept, .bearer token⟩).run world.peer).value = .error e) :
    ((call peer .bearer url accept).run world).value = .error e := by
  obtain ⟨state, cache⟩ := world
  obtain rfl : cache = some token := hkept
  have hfirst : ((sendWithToken peer url accept false).run ⟨state, some token⟩).value =
      .error e := h
  simp only [call, Act.run_bind, hfirst]
  rfl

/-- A fault that hits a form on the way to the token of a call makes it a call that may pass; one
that hits its request does so only where the connection was lost. So both are retried alike for
lost connections, and for no other fault of a client. -/
theorem retried_alike_iff_lost (c : Settings.Connection) (x : Token.Exchange) (url : Url)
    (accept : MediaType) (hinput : x.missingInput = none) :
    let call := call (c.peer (some x)) .bearer url accept
    (∀ world state e, FetchesIn (c.peer (some x)) url accept world state →
      x.FailsBy (Http.post c.proxy) state e →
        (call.run world).value = .error (.auth (.unreachable e.message)) ∧
          mayPass (call.run world).value = true) ∧
    (∀ (world : World Server) token e, world.cache = some token →
      ((Http.send c.proxy ⟨url, accept, .bearer token⟩).run world.peer).value = .error e →
        (call.run world).value = .error e ∧
          ∃ fault : Http.Fault, e = fault.error ∧
            mayPass (call.run world).value = decide (fault = .lost)) ∧
    ∀ url fields server e, ((Http.post c.proxy url fields).run server).value = .error e →
      ∃ fault : Http.Fault, e = fault.error ∧
        ((Error.auth (.unreachable e.message)).isRetryable = e.isRetryable ↔ fault = .lost) := by
  refine ⟨?_, ?_, ?_⟩
  · intro world state e hfetches hfails
    have hvalue := value_call_of_fetch_error hfetches
      (Token.run_fetch_of_failsBy hinput hfails)
    exact ⟨hvalue, by rw [hvalue]; rfl⟩
  · intro world token e hkept hsend
    have hvalue : ((Transport.call (c.peer (some x)) .bearer url accept).run world).value =
        .error e := value_call_of_send_error hkept hsend
    obtain ⟨fault, rfl⟩ := Http.exists_fault hsend
    exact ⟨hvalue, fault, rfl, by rw [hvalue]; exact fault.isRetryable_error⟩
  · intro url fields server e hpost
    obtain ⟨fault, rfl⟩ := Http.exists_fault hpost
    refine ⟨fault, rfl, ?_⟩
    rw [fault.isRetryable_error]
    simp [Error.isRetryable, Token.Error.isTransient]

/-- An answer that is cut off ends a call where it answers the request, and lets the call be made
again where it answers the form for the token; so does a form that cannot be written. -/
theorem retried_alike_iff_lost_cutOff :
    let u (scheme : String) : Url := ⟨scheme.toList, none, .segments ["a".toList], none, none⟩
    let x (scheme : String) : Token.Exchange := ⟨u scheme, "id", "firm", .provided "assertion"⟩
    let outcome (scheme : String) (kept : Option String) :=
      ((call (Settings.Connection.unset.peer (some (x scheme))) .bearer (u "http") Http.json).run
        ⟨⟨true, [.cut 200], []⟩, kept⟩).value
    mayPass (outcome "http" (some "token")) = false ∧ mayPass (outcome "http" none) = true ∧
      mayPass (outcome "ftp" none) = true := by
  intro u x outcome
  have h (scheme : String) :=
    retried_alike_iff_lost .unset (x scheme) (u "http") Http.json rfl
  refine ⟨?_, ?_, ?_⟩
  · obtain ⟨-, fault, hfault, hpass⟩ := (h "http").2.1 ⟨⟨true, [.cut 200], []⟩, some "token"⟩
      "token" (.request Http.decodingError false) rfl (by decide)
    refine hpass.trans ?_
    cases fault with
    | lost => simp [Http.Fault.error] at hfault
    | cutOff | unwritable => rfl
  · exact ((h "http").1 ⟨⟨true, [.cut 200], []⟩, none⟩ _ (.request Http.decodingError false)
      (.unkept _) (.token "assertion" rfl rfl)).2
  · exact ((h "ftp").1 ⟨⟨true, [.cut 200], []⟩, none⟩ _ (.request Http.builderError false)
      (.unkept _) (.token "assertion" rfl rfl)).2

end Transport

end Harvest

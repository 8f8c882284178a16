import Harvest.Http.Client
import Harvest.Proofs.Json.Records
import Harvest.Proofs.Session.Moments
import Harvest.Proofs.Text.Blank
import Harvest.Token.Exchange

/-!
# What an exchange sends and comes to

An exchange sends at most two forms: one for the assertion, where that has to be signed, and one for
the token, which carries the assertion. Nothing is sent where an input is missing, and no form for a
token where there is no assertion. What comes of the exchange is told by the last reply: a token, or
an error that keeps the token from before.
Design: `SPEC_FULL.md:123–127`.
-/

namespace Harvest.Token

open Transport (Outcome)

variable {σ : Type} {post : Poster σ} {x : Exchange} {r : AssertionRequest} {state s : σ}
  {assertion body token : String} {response : Http.Response} {e : Error}

/-- A form that is posted is all that its sending leaves in a trace, besides what is reported. -/
def Announces (post : Poster σ) : Prop :=
  ∀ url fields state, Event.effects ((post url fields).run state).trace = [.form url fields]

/-- The fields that an assertion is asked for with: who is to be vouched for, where, and the key to
sign it with. -/
def AssertionRequest.fields (r : AssertionRequest) : Http.Form :=
  [("client_id", r.clientId), ("user_id", r.userId), ("token_url", r.tokenUrl.text),
    ("private_key", r.privateKey)]

/-- The fields that a token is asked for with: who asks, and the assertion that vouches for it. -/
def Exchange.fields (x : Exchange) (assertion : String) : Http.Form :=
  [("company_id", x.companyId), ("client_id", x.clientId),
    ("grant_type", "urn:ietf:params:oauth:grant-type:saml2-bearer"), ("assertion", assertion)]

/-- What an exchange needs: its inputs with their names, in the order in which they are checked. -/
def Exchange.inputs (x : Exchange) : List (String × String) :=
  [("client_id", x.clientId), ("company_id", x.companyId)] ++
    match x.assertion with
    | .provided assertion => [("assertion_token", assertion)]
    | .signed _ => []

/-- The name of the first input that is empty. -/
def Exchange.firstMissing (x : Exchange) : Option String :=
  (x.inputs.find? (·.2 = "")).map (·.1)

/-- The form for an assertion that has to be signed. -/
def Exchange.asked (x : Exchange) : List Event :=
  match x.assertion with
  | .provided _ => []
  | .signed r => [.form r.tokenUrl.identityProvider r.fields]

/-- An exchange gets hold of an assertion: the one that is provided, or the body of a granted reply,
without the blanks around it. -/
inductive Exchange.Obtains (x : Exchange) (post : Poster σ) (state : σ) : String → σ → Prop
  | provided (assertion : String) (h : x.assertion = .provided assertion) :
      Obtains x post state assertion state
  | signed (r : AssertionRequest) (response : Http.Response) (h : x.assertion = .signed r)
      (hreply : ((post r.tokenUrl.identityProvider r.fields).run state).value = .ok response)
      (hgranted : response.isSuccess = true) (hbody : Text.blank response.text = false) :
      Obtains x post state (Text.trim response.text)
        ((post r.tokenUrl.identityProvider r.fields).run state).state

/-- What a form is sent for. -/
inductive Purpose where
  | assertion
  | token
deriving DecidableEq, Repr

/-- A reply that an exchange gets to one of its forms. -/
inductive Exchange.Replied (x : Exchange) (post : Poster σ) (state : σ) : Purpose → Outcome → Prop
  | assertion (r : AssertionRequest) (h : x.assertion = .signed r) :
      Replied x post state .assertion
        ((post r.tokenUrl.identityProvider r.fields).run state).value
  | token (assertion : String) (s : σ) (h : x.Obtains post state assertion s) :
      Replied x post state .token ((post x.tokenUrl (x.fields assertion)).run s).value

/-- A token document is read from a text. -/
def HoldsToken (body token : String) : Prop :=
  Json.readAll (tokenShape.read Json.depthLimit) (Text.bytesOf body) = .ok token

/-- A body is what a form was sent for. -/
def Purpose.IsServed : Purpose → String → Prop
  | .assertion, body => Text.blank body = false
  | .token, body => ∃ token, HoldsToken body token ∧ token ≠ ""

/-- What an exchange sends and what it comes to, by the replies that it gets. -/
structure Exchange.Conducts (x : Exchange) (post : Poster σ) (state : σ)
    (run : Act.Result σ (Except Error String)) : Prop where
  missing : ∀ name, x.firstMissing = some name →
    Event.effects run.trace = [] ∧ run.value = .error (.missingInput name)
  redeems : x.firstMissing = none → ∀ assertion s, x.Obtains post state assertion s →
    Event.effects run.trace = x.asked ++ [.form x.tokenUrl (x.fields assertion)]
  stops : x.firstMissing = none → (∀ assertion s, ¬x.Obtains post state assertion s) →
    Event.effects run.trace = x.asked
  granted : ∀ token, run.value = .ok token ↔ x.firstMissing = none ∧
    ∃ response, x.Replied post state .token (.ok response) ∧ response.isSuccess = true ∧
      HoldsToken response.text token ∧ token ≠ ""
  rejected : x.firstMissing = none → ∀ purpose response,
    x.Replied post state purpose (.ok response) → response.isSuccess = false →
      run.value = .error (.rejected response.status response.text)
  malformed : x.firstMissing = none → ∀ purpose response,
    x.Replied post state purpose (.ok response) → response.isSuccess = true →
      ¬purpose.IsServed response.text → ∃ detail, run.value = .error (.malformed detail)
  unreachable : x.firstMissing = none → ∀ purpose e, x.Replied post state purpose (.error e) →
    run.value = .error (.unreachable e.message)

/-! ## Bodies -/

private theorem grantedBody_of_success (h : response.isSuccess = true) :
    grantedBody (.ok response) = .ok response.text := by
  rw [grantedBody, if_pos h]

private theorem grantedBody_of_not_success (h : response.isSuccess = false) :
    grantedBody (.ok response) = .error (.rejected response.status response.text) := by
  rw [grantedBody, if_neg (by simp [h])]

/-- A text is read off a reply where that is granted and its body is read. -/
theorem grantedBody_bind_eq_ok_iff {outcome : Outcome} {read : String → Except Error String}
    {text : String} : grantedBody outcome >>= read = .ok text ↔
      ∃ response, outcome = .ok response ∧ response.isSuccess = true ∧
        read response.text = .ok text := by
  cases outcome with
  | error e => simp [grantedBody, bind, Except.bind]
  | ok response =>
    by_cases hgranted : response.isSuccess = true
    · rw [grantedBody_of_success hgranted]
      simp [bind, Except.bind, hgranted]
    · rw [grantedBody_of_not_success (Bool.eq_false_of_not_eq_true hgranted)]
      simp [bind, Except.bind, hgranted]

private theorem readAssertion_eq (body : String) : readAssertion body =
    if Text.blank body = true then .error (.malformed "empty assertion")
    else .ok (Text.trim body) := by
  rw [readAssertion, Text.nonBlank_eq]
  by_cases h : Text.blank body = true
  · simp only [if_pos h]
  · simp only [if_neg h]

private theorem readAssertion_eq_ok_iff :
    readAssertion body = .ok assertion ↔ Text.blank body = false ∧ Text.trim body = assertion := by
  rw [readAssertion_eq]
  by_cases h : Text.blank body = true
  · simp [h]
  · simp [h]

private theorem readToken_eq_ok_iff :
    readToken body = .ok token ↔ HoldsToken body token ∧ token ≠ "" := by
  cases hread : Json.readAll (tokenShape.read Json.depthLimit) (Text.bytesOf body) with
  | error fault => simp [readToken, HoldsToken, hread]
  | ok found =>
    simp only [readToken, HoldsToken, hread, Except.ok.injEq]
    by_cases h : found = ""
    · simp only [if_pos h, reduceCtorEq, false_iff, not_and, not_not]
      exact fun heq ↦ heq ▸ h
    · simp only [if_neg h, Except.ok.injEq]
      exact ⟨fun heq ↦ ⟨heq, heq ▸ h⟩, fun heq ↦ heq.1⟩

private theorem readToken_eq_error (h : readToken body = .error e) :
    ∃ detail, e = .malformed detail := by
  cases hread : Json.readAll (tokenShape.read Json.depthLimit) (Text.bytesOf body) with
  | error fault =>
    simp only [readToken, hread, Except.error.injEq] at h
    exact ⟨_, h.symm⟩
  | ok found =>
    simp only [readToken, hread] at h
    split at h
    · exact ⟨_, (Except.error.inj h).symm⟩
    · cases h

/-- A body that is parsed holds the one text that goes by the name of a token in it, whatever else
it holds; instead of an object it may be a list of just that text. -/
theorem holdsToken_iff {v : Json.Value} (h : Json.parse (Text.bytesOf body) = .ok v) :
    HoldsToken body token ↔
      v.only? "access_token" = some (.string token) ∨ v = .array [.string token] := by
  have hdecodes : Json.Decodes tokenShape.read _ :=
    tokenShape.decodes (fun _ v ↦ v.string?.map fun token _ ↦ some token)
      (List.forall_mem_singleton.mpr (Json.decodes_string.map _))
  rw [HoldsToken, hdecodes.readAll_eq_ok_iff h,
    Json.Shape.ofValue_of_single rfl rfl rfl rfl rfl, ← Json.Value.held_eq_some_iff,
    Option.bind_eq_some_iff]
  change (∃ w, v.held "access_token" = some w ∧ w.string? = some token) ↔ _
  constructor
  · rintro ⟨w, hw, htext⟩
    cases w with
    | string s => rwa [← Option.some.inj htext]
    | null | bool | number | array | object => cases htext
  · exact fun hw ↦ ⟨.string token, hw, rfl⟩

/-! ## Assertions -/

private theorem AssertionRequest.form_eq (r : AssertionRequest) : r.form = r.fields := rfl

/-- Having an assertion signed sends one form, and the reply to it decides. -/
theorem run_sign (post : Poster σ) (r : AssertionRequest) (state : σ) :
    let reply := (post r.tokenUrl.identityProvider r.fields).run state
    ((sign post r).run state).value = grantedBody reply.value >>= readAssertion ∧
      ((sign post r).run state).state = reply.state ∧
      Event.effects ((sign post r).run state).trace = Event.effects reply.trace := by
  refine ⟨rfl, rfl, ?_⟩
  simp only [sign, AssertionRequest.form_eq, Act.run_bind, Act.run_report, Act.run_pure,
    List.append_nil, List.singleton_append]
  rfl

/-- An assertion is asked for with the form for it, where it has to be signed. -/
theorem effects_assertionOf (hpost : Announces post) (x : Exchange) (state : σ) :
    Event.effects ((assertionOf post x.assertion).run state).trace = x.asked := by
  cases hassertion : x.assertion with
  | provided assertion =>
    simp only [Exchange.asked, hassertion]
    rfl
  | signed r =>
    simp only [Exchange.asked, hassertion, assertionOf]
    exact (run_sign post r state).2.2.trans (hpost ..)

/-- The assertion that an exchange goes on with is the one that it gets hold of. -/
theorem obtains_iff (hinput : x.firstMissing = none) : x.Obtains post state assertion s ↔
    ((assertionOf post x.assertion).run state).value = .ok assertion ∧
      ((assertionOf post x.assertion).run state).state = s := by
  constructor
  · intro h
    cases h with
    | provided _ hassertion =>
      have hgiven : assertion ≠ "" := by
        simp only [Exchange.firstMissing, Exchange.inputs, hassertion, Option.map_eq_none_iff,
          List.find?_eq_none] at hinput
        simpa using hinput ("assertion_token", assertion) (by simp)
      simp [hassertion, assertionOf, hgiven]
    | signed r response hassertion hreply hgranted hbody =>
      obtain ⟨hvalue, hstate, -⟩ := run_sign post r state
      rw [hassertion, assertionOf, hvalue, hstate, grantedBody_bind_eq_ok_iff]
      exact ⟨⟨response, hreply, hgranted, readAssertion_eq_ok_iff.mpr ⟨hbody, rfl⟩⟩, rfl⟩
  · rintro ⟨hvalue, rfl⟩
    cases hassertion : x.assertion with
    | provided given =>
      rw [hassertion, assertionOf, Act.run_pure] at hvalue
      split at hvalue
      · cases hvalue
      · obtain rfl := Except.ok.inj hvalue
        exact .provided given hassertion
    | signed r =>
      obtain ⟨hsigned, hstate, -⟩ := run_sign post r state
      rw [hassertion, assertionOf, hsigned, grantedBody_bind_eq_ok_iff] at hvalue
      obtain ⟨response, hreply, hgranted, hread⟩ := hvalue
      obtain ⟨hbody, rfl⟩ := readAssertion_eq_ok_iff.mp hread
      rw [assertionOf, hstate]
      exact .signed r response hassertion hreply hgranted hbody

/-! ## Exchanges -/

private theorem Exchange.form_eq (x : Exchange) (assertion : String) :
    x.form assertion = x.fields assertion := rfl

private theorem missingInput_eq_none (h : x.firstMissing = none) : x.missingInput = none := by
  simp only [Exchange.firstMissing, Exchange.inputs, Option.map_eq_none_iff, List.find?_eq_none,
    List.cons_append, List.nil_append, List.forall_mem_cons, decide_eq_true_eq] at h
  rw [Exchange.missingInput, if_neg h.1, if_neg h.2.1]

/-- Nothing is sent where an input is missing, and the first one is named. -/
theorem run_fetch_of_missing {name : String} (h : x.firstMissing = some name) :
    (x.fetch post).run state = ⟨.error (.missingInput name), [], state⟩ := by
  by_cases hid : x.clientId = ""
  · obtain rfl : "client_id" = name := by
      simpa [Exchange.firstMissing, Exchange.inputs, hid] using h
    simp [Exchange.fetch, Exchange.missingInput, hid]
  by_cases hcompany : x.companyId = ""
  · obtain rfl : "company_id" = name := by
      simpa [Exchange.firstMissing, Exchange.inputs, hid, hcompany] using h
    simp [Exchange.fetch, Exchange.missingInput, hid, hcompany]
  have hinput : x.missingInput = none := by
    rw [Exchange.missingInput, if_neg hid, if_neg hcompany]
  cases hassertion : x.assertion with
  | provided assertion =>
    have hempty : assertion = "" ∧ "assertion_token" = name := by
      simpa [Exchange.firstMissing, Exchange.inputs, hid, hcompany, hassertion] using h
    obtain ⟨rfl, rfl⟩ := hempty
    simp only [Exchange.fetch, hinput, hassertion, assertionOf, if_true]
    rfl
  | signed r =>
    simp [Exchange.firstMissing, Exchange.inputs, hid, hcompany, hassertion] at h

/-- No token is asked for where there is no assertion. -/
theorem run_fetch_of_error (hinput : x.firstMissing = none)
    (h : ((assertionOf post x.assertion).run state).value = .error e) :
    (x.fetch post).run state = ⟨.error e, ((assertionOf post x.assertion).run state).trace,
      ((assertionOf post x.assertion).run state).state⟩ := by
  simp only [Exchange.fetch, missingInput_eq_none hinput, Act.run_bind, h, Act.run_pure,
    List.append_nil]

/-- A token is asked for with the assertion that there is. -/
theorem run_fetch_of_obtains (hinput : x.firstMissing = none)
    (h : x.Obtains post state assertion s) : (x.fetch post).run state =
      ⟨((x.redeem post assertion).run s).value,
        ((assertionOf post x.assertion).run state).trace ++
          ((x.redeem post assertion).run s).trace,
        ((x.redeem post assertion).run s).state⟩ := by
  obtain ⟨hvalue, rfl⟩ := (obtains_iff hinput).mp h
  simp only [Exchange.fetch, missingInput_eq_none hinput, Act.run_bind, hvalue]

private theorem value_redeem (x : Exchange) (post : Poster σ) (assertion : String) (s : σ) :
    ((x.redeem post assertion).run s).value =
      grantedBody ((post x.tokenUrl (x.fields assertion)).run s).value >>= readToken := by
  simp only [Exchange.redeem, Exchange.form_eq, Act.run_bind]
  split
  · next h => rw [h]; rfl
  · next h => rw [h]; rfl

/-- One form is sent for a token, whatever the reply to it is. -/
theorem effects_redeem (hpost : Announces post) (x : Exchange) (assertion : String) (s : σ) :
    Event.effects ((x.redeem post assertion).run s).trace =
      [.form x.tokenUrl (x.fields assertion)] := by
  simp only [Exchange.redeem, Exchange.form_eq, Act.run_bind]
  split
  · rw [Act.run_pure, List.append_nil, hpost]
  · rw [Act.run_bind, Act.run_report, Act.run_pure, List.append_nil, Event.effects_append_log,
      hpost]

/-- A reply is passed on as the error that it is, by the exchange as by the step that it ends. -/
theorem value_fetch_of_replied (hinput : x.firstMissing = none) {outcome : Outcome}
    (h : x.Replied post state .assertion outcome) {e : Error}
    (herror : grantedBody outcome >>= readAssertion = .error e) :
    ((x.fetch post).run state).value = .error e := by
  cases h with
  | assertion r hassertion =>
    have hvalue : ((assertionOf post x.assertion).run state).value = .error e := by
      rw [hassertion, assertionOf, (run_sign post r state).1, herror]
    rw [run_fetch_of_error hinput hvalue]

/-- The reply to the form for a token is what the exchange comes to. -/
theorem value_fetch_of_replied_token (hinput : x.firstMissing = none) {outcome : Outcome}
    (h : x.Replied post state .token outcome) :
    ((x.fetch post).run state).value = grantedBody outcome >>= readToken := by
  cases h with
  | token assertion s h => rw [run_fetch_of_obtains hinput h, value_redeem]

/-- A token comes of an exchange only where no input is missing and there is an assertion. -/
theorem obtains_of_value_fetch (h : ((x.fetch post).run state).value = .ok token) :
    x.firstMissing = none ∧ ∃ assertion s, x.Obtains post state assertion s := by
  cases hinput : x.firstMissing with
  | some name =>
    rw [run_fetch_of_missing hinput] at h
    cases h
  | none =>
    cases hvalue : ((assertionOf post x.assertion).run state).value with
    | error e =>
      rw [run_fetch_of_error hinput hvalue] at h
      cases h
    | ok assertion => exact ⟨rfl, assertion, _, (obtains_iff hinput).mpr ⟨hvalue, rfl⟩⟩

/-- What an exchange sends and comes to is as its inputs and the replies to it say. -/
theorem conducts_fetch (hpost : Announces post) (x : Exchange) (state : σ) :
    x.Conducts post state ((x.fetch post).run state) where
  missing := by
    intro name h
    rw [run_fetch_of_missing h]
    exact ⟨rfl, rfl⟩
  redeems := by
    intro hinput assertion s h
    rw [run_fetch_of_obtains hinput h, Event.effects_append, effects_assertionOf hpost,
      effects_redeem hpost]
  stops := by
    intro hinput hnone
    cases hvalue : ((assertionOf post x.assertion).run state).value with
    | error e => rw [run_fetch_of_error hinput hvalue, effects_assertionOf hpost]
    | ok assertion => exact absurd ((obtains_iff hinput).mpr ⟨hvalue, rfl⟩) (hnone _ _)
  granted := by
    intro token
    constructor
    · intro hvalue
      obtain ⟨hinput, assertion, s, hobtains⟩ := obtains_of_value_fetch hvalue
      have hreplied := Exchange.Replied.token assertion s hobtains
      rw [value_fetch_of_replied_token hinput hreplied, grantedBody_bind_eq_ok_iff] at hvalue
      obtain ⟨response, hreply, hgranted, hread⟩ := hvalue
      exact ⟨hinput, response, hreply ▸ hreplied, hgranted, readToken_eq_ok_iff.mp hread⟩
    · rintro ⟨hinput, response, hreplied, hgranted, hread⟩
      rw [value_fetch_of_replied_token hinput hreplied, grantedBody_bind_eq_ok_iff]
      exact ⟨response, rfl, hgranted, readToken_eq_ok_iff.mpr hread⟩
  rejected := by
    intro hinput purpose response h hrefused
    cases purpose with
    | assertion =>
      refine value_fetch_of_replied hinput h ?_
      rw [grantedBody_of_not_success hrefused]
      rfl
    | token =>
      rw [value_fetch_of_replied_token hinput h, grantedBody_of_not_success hrefused]
      rfl
  malformed := by
    intro hinput purpose response h hgranted hserved
    cases purpose with
    | assertion =>
      refine ⟨"empty assertion", value_fetch_of_replied hinput h ?_⟩
      have hblank : Text.blank response.text = true := by simpa [Purpose.IsServed] using hserved
      rw [grantedBody_of_success hgranted]
      exact (readAssertion_eq _).trans (if_pos hblank)
    | token =>
      rw [value_fetch_of_replied_token hinput h, grantedBody_of_success hgranted]
      change ∃ detail, readToken response.text = .error (.malformed detail)
      cases hread : readToken response.text with
      | error e =>
        obtain ⟨detail, rfl⟩ := readToken_eq_error hread
        exact ⟨detail, rfl⟩
      | ok token => exact absurd ⟨token, readToken_eq_ok_iff.mp hread⟩ hserved
  unreachable := by
    intro hinput purpose e h
    cases purpose with
    | assertion => exact value_fetch_of_replied hinput h rfl
    | token => rw [value_fetch_of_replied_token hinput h]; rfl

/-! ## The token that is kept -/

/-- No token is dropped or replaced where none can be had. -/
theorem cache_of_get_error {peer : Peer σ} {refresh : Bool} {world : World σ}
    (h : ((get peer refresh).run world).value = .error e) :
    ((get peer refresh).run world).state.cache = world.cache := by
  have hrenew (h : ((renew peer).run world).value = .error e) :
      ((renew peer).run world).state.cache = world.cache := by
    rw [Session.run_renew] at h ⊢
    simp only [show (peer.fetchToken.run world.peer).value = .error e from h]
    rfl
  obtain ⟨state, cache⟩ := world
  cases refresh with
  | true => exact hrenew h
  | false =>
    cases cache with
    | none => exact hrenew h
    | some token => cases h

private theorem announces_post (proxy : Http.Proxy) : Announces (Http.post proxy) := by
  intro url fields server
  have htrace (writable : Bool) (query : Http.Query) (server : Http.Server) :
      ((Http.exchange proxy writable query).run server).trace = [] := by
    cases writable <;> rfl
  rw [Http.post, Act.run_bind, htrace]
  rfl

/-- Whatever the endpoints reply, an exchange sends a form for each step that it comes to and no
other one, of which the last carries the assertion; it hands out a token just where the reply to
that one is granted and holds one, and fails as the reply says that it ends with. A body holds the
one text that goes by the name of a token in it. A kept token outlasts every failure. -/
theorem fetch_conducts (hpost : Announces post) (x : Exchange) :
    (∀ state, x.Conducts post state ((x.fetch post).run state)) ∧
    (∀ body v, Json.parse (Text.bytesOf body) = .ok v → ∀ token, HoldsToken body token ↔
      v.only? "access_token" = some (.string token) ∨ v = .array [.string token]) ∧
    ∀ (peer : Peer σ) refresh world e, peer.fetchToken = x.fetch post →
      ((get peer refresh).run world).value = .error e →
        ((get peer refresh).run world).state.cache = world.cache :=
  ⟨conducts_fetch hpost x, fun _ _ h _ ↦ holdsToken_iff h, fun _ _ _ _ _ ↦ cache_of_get_error⟩

/-- A token endpoint on the web. -/
def tokenEndpoint : Url :=
  ⟨"http".toList, some ⟨[], [], .name "h".toList, none⟩, .segments ["oauth".toList, "token".toList],
    none, none⟩

/-- What an identity provider is to sign. -/
def signedRequest : AssertionRequest := ⟨tokenEndpoint, "id", "firm", "me", "key", 5⟩

/-- An exchange whose assertion has to be signed. -/
def signedExchange : Exchange := ⟨tokenEndpoint, "id", "firm", .signed signedRequest⟩

/-- A reply with an assertion and blanks around it. -/
def assertionReply : Http.Response := ⟨200, "OK", none, Text.bytesOf " signed\n"⟩

/-- A reply with a token among other things. -/
def tokenReply : Http.Response :=
  ⟨200, "OK", none, Text.bytesOf "\x7b\"n\": [1], \"access_token\": \"t\"\x7d"⟩

/-- Endpoints that give these replies. -/
def grantingServer : Http.Server :=
  ⟨true, [.answer 200 none assertionReply.body, .answer 200 none tokenReply.body], []⟩

/-- The token is redeemed with the assertion, and that without the blanks. -/
theorem fetch_conducts_signed :
    let run := (signedExchange.fetch (Http.post default)).run grantingServer
    run.value = .ok "t" ∧ Event.effects run.trace =
      [.form tokenEndpoint.identityProvider
          [("client_id", "id"), ("user_id", "me"), ("token_url", "http://h/oauth/token"),
            ("private_key", "key")],
        .form tokenEndpoint
          [("company_id", "firm"), ("client_id", "id"),
            ("grant_type", "urn:ietf:params:oauth:grant-type:saml2-bearer"),
            ("assertion", "signed")]] := by
  intro run
  have hconducts := (fetch_conducts (announces_post default) signedExchange).1 grantingServer
  let signed := (Http.post default tokenEndpoint.identityProvider signedRequest.fields).run
    grantingServer
  have hsigned : signed.value = .ok assertionReply := by decide +kernel
  have htrim : Text.trim assertionReply.text = "signed" := by decide +kernel
  have hobtains : signedExchange.Obtains (Http.post default) grantingServer "signed"
      signed.state := by
    rw [← htrim]
    exact .signed signedRequest assertionReply rfl hsigned rfl (by decide +kernel)
  have hgranted : ((Http.post default tokenEndpoint (signedExchange.fields "signed")).run
      signed.state).value = .ok tokenReply := by
    decide +kernel
  have hreplied : signedExchange.Replied (Http.post default) grantingServer .token
      (.ok tokenReply) := by
    rw [← hgranted]
    exact .token "signed" signed.state hobtains
  have hholds : HoldsToken tokenReply.text "t" := by
    unfold HoldsToken
    decide +kernel
  exact ⟨(hconducts.granted "t").mpr ⟨rfl, tokenReply, hreplied, rfl, hholds, by decide⟩,
    hconducts.redeems rfl "signed" signed.state hobtains⟩

end Harvest.Token

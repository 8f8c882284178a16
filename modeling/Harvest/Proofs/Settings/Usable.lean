import Harvest.Command.Inspect
import Harvest.Proofs.Endpoints.Meaning
import Harvest.Proofs.Url.Blanks

/-!
# Settings that pass the checks

A check reads URLs without any blanks around them. Credentials are set up from URLs that are
trimmed in the same way. The base URL of a service is not trimmed where it is used, so the service
is set up at the URL that was checked only if no blanks beyond ASCII stand around it.
Design: `SPEC_FULL.md:226–231`.
-/

namespace Harvest.Settings

variable {s : Settings} {c : Connection} {value : Option String} {field : String} {url : Url}

/-! ## What the checks accept -/

private theorem failIf_eq_nil_iff {condition : Bool} {message : String} :
    failIf condition field message = [] ↔ condition = false := by
  cases condition <;> simp [failIf]

/-- The check of a URL accepts the texts that are web URLs without the blanks around them. -/
theorem failUrl_eq_nil_iff : failUrl value field = [] ↔
    ∃ url, Url.parse (trimmed value) = .ok url ∧ url.isWeb = true := by
  by_cases hblank : isBlank value = true
  · have hempty : trimmed value = "" := by simpa [isBlank] using hblank
    have hnone : Url.parse "" = .error .noBase := rfl
    simp [failUrl, failMissing, failIf, hblank, hempty, hnone]
  · simp only [failUrl, if_neg hblank]
    cases Url.parse (trimmed value) with
    | error e => simp
    | ok url => simp [failIf_eq_nil_iff]

/-- The check of a connection accepts credentials and a base URL. -/
theorem Connection.failures_eq_nil_iff : c.failures = [] ↔ c.credentialFailures = [] ∧
    ∃ url, Url.parse (Text.trim c.baseUrl) = .ok url ∧ url.isWeb = true := by
  rw [Connection.failures, List.append_eq_nil_iff, failUrl_eq_nil_iff]
  rfl

/-- Credentials that pass the check can be set up, with the token URL that was checked. -/
theorem Connection.credentials_of_failures (h : c.credentialFailures = []) :
    ∃ credentials, c.credentials = .ok credentials ∧ ∀ exchange, credentials.2 = some exchange →
      Url.parse (trimmed c.tokenUrl) = .ok exchange.tokenUrl ∧
        exchange.tokenUrl.isWeb = true := by
  cases hauth : c.authType with
  | basic => exact ⟨_, by rw [credentials, hauth], by simp⟩
  | oauth =>
    simp only [credentialFailures, hauth, List.append_eq_nil_iff] at h
    obtain ⟨⟨-, htoken⟩, -⟩ := h
    obtain ⟨url, hparse, hweb⟩ := failUrl_eq_nil_iff.mp htoken
    refine ⟨(.bearer, some ⟨url, trimmed c.clientId, trimmed c.companyId, c.assertion url⟩), ?_, ?_⟩
    · simp only [credentials, hauth, Transport.parseUrl, hparse]
      rfl
    · rintro exchange ⟨⟩
      exact ⟨hparse, hweb⟩

/-! ## What is set up -/

/-- Whether the blanks that the check drops around the base URL are white space of ASCII. -/
def Connection.IsPlainlyPadded (c : Connection) : Prop :=
  ∀ b ∈ Text.blanksBefore c.baseUrl ++ Text.blanksBehind c.baseUrl, Url.isPadding b = true

instance (c : Connection) : Decidable c.IsPlainlyPadded :=
  decidable_of_iff
    ((Text.blanksBefore c.baseUrl ++ Text.blanksBehind c.baseUrl).all Url.isPadding = true)
    List.all_eq_true

/-- Endpoints are at a web URL just where that URL is read from the text of their base. -/
theorem make_eq_ok_iff_of_isWeb {base : String} {query : Query} (hweb : url.isWeb = true) :
    Endpoints.make base query = .ok ⟨url, query⟩ ↔ Url.parse base = .ok url := by
  rw [Endpoints.make_eq_ok_iff]
  refine ⟨?_, fun hparse ↦ ⟨url, hparse, Url.isHierarchical_of_isWeb hparse hweb, rfl⟩⟩
  rintro ⟨base', hparse, -, hsame⟩
  obtain rfl : url = base' := congrArg Endpoints.base hsame
  exact hparse

/-- Where there is a client and there are credentials, a service is set up if its endpoints are. -/
theorem run_openService (site : Site Http.Server) {lines : List Log.Line}
    (hclient : Http.connect s.connection.proxy = .ok lines)
    {credentials : Transport.Credentials × Option Token.Exchange}
    (hcredentials : s.connection.credentials = .ok credentials) :
    ((Command.openService s).run.run site).value =
      ((Endpoints.make s.connection.baseUrl s.extract.query).mapError
        (.because "Invalid base URL" ∘ .ofTransport)).map fun endpoints ↦
          ⟨endpoints, s.connection.peer credentials.2, credentials.1, s.retry.policy⟩ := by
  have hconnect : s.connection.connect =
      (lines, .ok (credentials.1, s.connection.peer credentials.2)) := by
    rw [Connection.connect, hclient, hcredentials]
    rfl
  simp only [Command.openService, hconnect]
  cases Endpoints.make s.connection.baseUrl s.extract.query <;> rfl

/-- Settings that pass all checks name a web URL as their base, and credentials that can be set up.
Where there is a client, a service is set up at that URL just where no blanks beyond ASCII stand
around it. -/
theorem usable_iff_isPlainlyPadded (h : s.failures = []) :
    ∃ url, Url.parse (Text.trim s.connection.baseUrl) = .ok url ∧ url.isWeb = true ∧
      (∃ credentials, s.connection.credentials = .ok credentials ∧
        ∀ exchange, credentials.2 = some exchange →
          Url.parse (trimmed s.connection.tokenUrl) = .ok exchange.tokenUrl ∧
            exchange.tokenUrl.isWeb = true) ∧
      (Endpoints.make s.connection.baseUrl s.extract.query = .ok ⟨url, s.extract.query⟩ ↔
        s.connection.IsPlainlyPadded) ∧
      ∀ lines, Http.connect s.connection.proxy = .ok lines → ∀ site,
        ((∃ service, ((Command.openService s).run.run site).value = .ok service ∧
            service.endpoints = ⟨url, s.extract.query⟩) ↔ s.connection.IsPlainlyPadded) := by
  rw [failures, List.append_eq_nil_iff, List.append_eq_nil_iff,
    Connection.failures_eq_nil_iff] at h
  obtain ⟨⟨⟨hcredentialFailures, url, hparse, hweb⟩, -⟩, -⟩ := h
  obtain ⟨credentials, hcredentials, htoken⟩ :=
    Connection.credentials_of_failures hcredentialFailures
  have hmake : Endpoints.make s.connection.baseUrl s.extract.query = .ok ⟨url, s.extract.query⟩ ↔
      s.connection.IsPlainlyPadded := by
    rw [make_eq_ok_iff_of_isWeb hweb, Url.parse_eq_ok_iff_of_trim hparse hweb]
    rfl
  refine ⟨url, hparse, hweb, ⟨credentials, hcredentials, htoken⟩, hmake, ?_⟩
  intro lines hclient site
  rw [← hmake, run_openService site hclient hcredentials]
  cases Endpoints.make s.connection.baseUrl s.extract.query with
  | error e => simp [Except.mapError, Except.map]
  | ok endpoints => simp [Except.mapError, Except.map]

/-- Settings that pass all checks if their base URL does. -/
def configured (base : String) : Settings :=
  { standard 8 with
    connection :=
      { Connection.unset with baseUrl := base, username := some "u", password := some "p" }
    extract := { Extract.unset with entity := "User" } }

/-- The base URL without the blanks around it. -/
def plainBase : Url :=
  ⟨"http".toList, some ⟨[], [], .name "h.example.com".toList, none⟩, .segments ["odata".toList],
    none, none⟩

/-- A space and a line break around the base URL are dropped. A no-break space is dropped only by
the check. -/
theorem usable_iff_isPlainlyPadded_noBreakSpace :
    (configured " http://h.example.com/odata\n").failures = [] ∧
    Endpoints.make " http://h.example.com/odata\n" (configured "").extract.query =
      .ok ⟨plainBase, (configured "").extract.query⟩ ∧
    (configured "\u00a0http://h.example.com/odata").failures = [] ∧
    Endpoints.make "\u00a0http://h.example.com/odata" (configured "").extract.query ≠
      .ok ⟨plainBase, (configured "").extract.query⟩ := by
  have hspace : (configured " http://h.example.com/odata\n").failures = [] := by decide +kernel
  have hwide : (configured "\u00a0http://h.example.com/odata").failures = [] := by decide +kernel
  obtain ⟨url, hparse, -, -, hmake, -⟩ := usable_iff_isPlainlyPadded hspace
  obtain ⟨url', hparse', -, -, hmake', -⟩ := usable_iff_isPlainlyPadded hwide
  have hplain : Url.parse (Text.trim " http://h.example.com/odata\n") = .ok plainBase := by
    decide +kernel
  have hplain' : Url.parse (Text.trim "\u00a0http://h.example.com/odata") = .ok plainBase := by
    decide +kernel
  obtain rfl : plainBase = url := Except.ok.inj (hplain.symm.trans hparse)
  obtain rfl : plainBase = url' := Except.ok.inj (hplain'.symm.trans hparse')
  exact ⟨hspace, hmake.mpr (by decide +kernel), hwide, fun hok ↦
    absurd (hmake'.mp hok) (by decide +kernel)⟩

end Harvest.Settings

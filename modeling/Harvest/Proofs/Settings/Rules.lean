import Harvest.Command.Inspect
import Harvest.Proofs.Settings.Usable
import Harvest.Proofs.Text.Blank

/-!
# Every broken rule is reported

The rules that settings have to keep stand in one list, each with the field that it is about.
Checking goes through this list: a rule that is broken has a failure of its field, one that is kept
has none, and neither depends on what becomes of the others.
Design: `SPEC_FULL.md:226–231`.
-/

namespace Harvest.Settings

/-! ## Rules -/

/-- The rules that settings have to keep. -/
inductive Rule where
  | usernameGiven
  | passwordGiven
  | clientGiven
  | companyGiven
  | tokenUrlOnWeb
  | assertionGiven
  | privateKeyGiven
  | validityPositive
  | userGiven
  | baseUrlOnWeb
  | entityGiven
  | entityWithoutKey
  | associatedWithExpand
  | initialDelayPositive
  | longestDelayPositive
  | retriesPositive
  | multiplierAboveOne
  | longestAboveInitial
deriving DecidableEq

/-- The field that a rule is about. -/
def Rule.field : Rule → String
  | usernameGiven => "connection.username"
  | passwordGiven => "connection.password"
  | clientGiven => "connection.client_id"
  | companyGiven => "connection.company_id"
  | tokenUrlOnWeb => "connection.token_url"
  | assertionGiven => "connection.assertion_token"
  | privateKeyGiven => "connection.private_key"
  | validityPositive => "connection.expire_in_minutes"
  | userGiven => "connection.user_id"
  | baseUrlOnWeb => "connection.base_url"
  | entityGiven | entityWithoutKey => "extract.entity"
  | associatedWithExpand => "extract.associated_entity"
  | initialDelayPositive => "retry.initial_delay_secs"
  | longestDelayPositive | longestAboveInitial => "retry.max_delay_secs"
  | retriesPositive => "retry.max_retries"
  | multiplierAboveOne => "retry.multiplier"

/-- Whether a text is there and holds more than blanks. -/
def IsGiven (value : Option String) : Prop := ∃ text ∈ value, Text.blank text = false

/-- Whether a text is there and is a URL of the web, but for blanks around it. -/
def IsOnWeb (value : Option String) : Prop :=
  IsGiven value ∧ ∃ url, Url.parse (trimmed value) = .ok url ∧
    (url.scheme = "http".toList ∨ url.scheme = "https".toList)

/-- What it is to break a rule. Some rules are for one way to authenticate only, or for one way to
come by an assertion. -/
def Rule.IsBroken (s : Settings) : Rule → Prop
  | usernameGiven => s.connection.authType = .basic ∧ ¬ IsGiven s.connection.username
  | passwordGiven => s.connection.authType = .basic ∧ ¬ IsGiven s.connection.password
  | clientGiven => s.connection.authType = .oauth ∧ ¬ IsGiven s.connection.clientId
  | companyGiven => s.connection.authType = .oauth ∧ ¬ IsGiven s.connection.companyId
  | tokenUrlOnWeb => s.connection.authType = .oauth ∧ ¬ IsOnWeb s.connection.tokenUrl
  | assertionGiven => s.connection.authType = .oauth ∧ s.connection.assertionMode = .enter ∧
      ¬ IsGiven s.connection.assertionToken
  | privateKeyGiven => s.connection.authType = .oauth ∧ s.connection.assertionMode = .create ∧
      ¬ IsGiven s.connection.privateKey
  | validityPositive => s.connection.authType = .oauth ∧ s.connection.assertionMode = .create ∧
      ¬ 0 < s.connection.expireInMinutes
  | userGiven => s.connection.authType = .oauth ∧ s.connection.assertionMode = .create ∧
      ¬ IsGiven s.connection.userId
  | baseUrlOnWeb => ¬ IsOnWeb (some s.connection.baseUrl)
  | entityGiven => ¬ IsGiven (some s.extract.entity)
  | entityWithoutKey => '(' ∈ s.extract.entity.toList ∧ ')' ∈ s.extract.entity.toList
  | associatedWithExpand => IsGiven s.extract.associatedEntity ∧ ¬ IsGiven s.extract.expand
  | initialDelayPositive => ¬ 0 < s.retry.initialDelay
  | longestDelayPositive => ¬ 0 < s.retry.longestDelay
  | retriesPositive => ¬ 0 < s.retry.retries
  | multiplierAboveOne => ¬ 1 < s.retry.multiplier
  | longestAboveInitial => ¬ s.retry.initialDelay < s.retry.longestDelay

/-- The rules of credentials, in the order in which they are checked. -/
def credentialRules : List Rule :=
  [.usernameGiven, .passwordGiven, .clientGiven, .companyGiven, .tokenUrlOnWeb, .assertionGiven,
    .privateKeyGiven, .validityPositive, .userGiven]

/-- The rules of what to extract. -/
def extractRules : List Rule := [.entityGiven, .entityWithoutKey, .associatedWithExpand]

/-- The rules of retries. -/
def retryRules : List Rule :=
  [.initialDelayPositive, .longestDelayPositive, .retriesPositive, .multiplierAboveOne,
    .longestAboveInitial]

/-- All rules, in the order in which they are checked. -/
def allRules : List Rule := credentialRules ++ [.baseUrlOnWeb] ++ extractRules ++ retryRules

/-- No rule is left out. -/
theorem mem_allRules (rule : Rule) : rule ∈ allRules := by
  cases rule <;> decide

/-! ## Reports -/

variable {s : Settings} {value : Option String} {field message : String} {condition : Bool}
  {found more : List Failure} {rules others : List Rule}

/-- Failures that tell of some rules one after another which of them are broken. -/
inductive Reports (s : Settings) : List Rule → List Failure → Prop
  | nil : Reports s [] []
  | broken {rule : Rule} {rules : List Rule} {f : Failure} {found : List Failure}
      (hbroken : rule.IsBroken s) (hfield : f.field = rule.field) (hrest : Reports s rules found) :
      Reports s (rule :: rules) (f :: found)
  | kept {rule : Rule} {rules : List Rule} {found : List Failure} (hkept : ¬ rule.IsBroken s)
      (hrest : Reports s rules found) : Reports s (rule :: rules) found

namespace Reports

private theorem append (h : Reports s rules found) (k : Reports s others more) :
    Reports s (rules ++ others) (found ++ more) := by
  induction h with
  | nil => exact k
  | broken hbroken hfield _ ih => exact .broken hbroken hfield ih
  | kept hkept _ ih => exact .kept hkept ih

/-- Rules that are kept have no failures. -/
theorem of_kept (h : ∀ rule ∈ rules, ¬ rule.IsBroken s) : Reports s rules [] := by
  induction rules with
  | nil => exact .nil
  | cons rule rules ih =>
    obtain ⟨hrule, hrules⟩ := List.forall_mem_cons.mp h
    exact .kept hrule (ih hrules)

/-- A field has a failure just where one of its rules is broken. -/
theorem exists_field_iff (h : Reports s rules found) :
    (∃ f ∈ found, f.field = field) ↔ ∃ rule ∈ rules, rule.field = field ∧ rule.IsBroken s := by
  induction h with
  | nil => simp
  | broken hbroken hfield _ ih => simp [ih, hbroken, hfield]
  | kept hkept _ ih => simp [ih, hkept]

/-- There are no failures just where all rules are kept. -/
theorem eq_nil_iff (h : Reports s rules found) :
    found = [] ↔ ∀ rule ∈ rules, ¬ rule.IsBroken s := by
  induction h with
  | nil => simp
  | broken hbroken => simp [hbroken]
  | kept hkept _ ih => simp [ih, hkept]

end Reports

/-! ## Single checks -/

private theorem trim_eq_empty_iff (text : String) :
    Text.trim text = "" ↔ Text.blank text = true := by
  constructor
  · intro h
    have hnone := Text.nonBlank_eq text
    have hchars : Text.trimChars text.toList = [] := by simpa [Text.trim] using h
    rw [Text.nonBlank, hchars] at hnone
    by_contra hblank
    simp [hblank] at hnone
  · intro h
    rw [Text.trim, Text.trimChars_eq_nil_of_all h]

private theorem isBlank_iff : isBlank value = true ↔ ¬ IsGiven value := by
  cases value with
  | none => simp [isBlank, trimmed, IsGiven]
  | some text => simp [isBlank, trimmed, IsGiven, trim_eq_empty_iff]

private theorem reports_failIf {rule : Rule} (h : condition = true ↔ rule.IsBroken s) :
    Reports s [rule] (failIf condition rule.field message) := by
  cases condition with
  | true => exact .broken (h.mp rfl) rfl .nil
  | false => exact .kept (mt h.mpr Bool.false_ne_true) .nil

private theorem reports_failMissing {rule : Rule} (h : ¬ IsGiven value ↔ rule.IsBroken s) :
    Reports s [rule] (failMissing value rule.field) :=
  reports_failIf (isBlank_iff.trans h)

private theorem isOnWeb_iff : IsOnWeb value ↔ ∃ url, Url.parse (trimmed value) = .ok url ∧
    url.isWeb = true := by
  have hweb (url : Url) : url.isWeb = true ↔
      url.scheme = "http".toList ∨ url.scheme = "https".toList := by
    simp [Url.isWeb]
  simp only [IsOnWeb, hweb, and_iff_right_iff_imp]
  -- Nothing is read from a text that is blank.
  rintro ⟨url, hparse, -⟩
  by_contra hblank
  have hempty : trimmed value = "" := by simpa [isBlank] using isBlank_iff.mpr hblank
  rw [hempty] at hparse
  cases hparse

/-- The check of a URL reports one failure at most. -/
theorem reports_failUrl {rule : Rule} (h : ¬ IsOnWeb value ↔ rule.IsBroken s) :
    Reports s [rule] (failUrl value rule.field) := by
  by_cases hweb : IsOnWeb value
  · rw [failUrl_eq_nil_iff.mpr (isOnWeb_iff.mp hweb)]
    exact .kept (fun hbroken ↦ h.mpr hbroken hweb) .nil
  · have hbroken := h.mp hweb
    have hone (f : Failure) (hf : f.field = rule.field) : Reports s [rule] [f] :=
      .broken hbroken hf .nil
    unfold failUrl
    split
    · next hblank =>
      simp only [failMissing, failIf, hblank, if_true]
      exact hone _ rfl
    · dsimp only
      split
      · exact hone _ rfl
      · next url hparse =>
        have hnot : url.isWeb = false := by
          by_contra hurl
          exact hweb (isOnWeb_iff.mpr ⟨url, hparse, by simpa using hurl⟩)
        simp only [failIf, hnot, Bool.not_false, if_true]
        exact hone _ rfl

/-! ## The checks of the sections -/

/-- Of those who give a name and a password, no other rule of credentials can be broken. -/
theorem reports_credentialFailures_basic (hauth : s.connection.authType = .basic) :
    Reports s credentialRules s.connection.credentialFailures := by
  let c := s.connection
  have husername : Reports s [.usernameGiven] (failMissing c.username "connection.username") :=
    reports_failMissing (by simp [Rule.IsBroken, hauth, c])
  have hpassword : Reports s [.passwordGiven] (failMissing c.password "connection.password") :=
    reports_failMissing (by simp [Rule.IsBroken, hauth, c])
  have hothers : Reports s (credentialRules.drop 2) [] :=
    .of_kept (by simp [credentialRules, Rule.IsBroken, hauth])
  have hall := (husername.append hpassword).append hothers
  simp only [Connection.credentialFailures, hauth]
  rwa [List.append_nil] at hall

/-- Of those who exchange an assertion for a token, the rules depend on how they come by it. -/
theorem reports_credentialFailures_oauth (hauth : s.connection.authType = .oauth) :
    Reports s credentialRules s.connection.credentialFailures := by
  let c := s.connection
  have hbasic : Reports s [.usernameGiven, .passwordGiven] [] :=
    .of_kept (by simp [Rule.IsBroken, hauth])
  have hclient : Reports s [.clientGiven] (failMissing c.clientId "connection.client_id") :=
    reports_failMissing (by simp [Rule.IsBroken, hauth, c])
  have hcompany : Reports s [.companyGiven] (failMissing c.companyId "connection.company_id") :=
    reports_failMissing (by simp [Rule.IsBroken, hauth, c])
  have htokenUrl : Reports s [.tokenUrlOnWeb] (failUrl c.tokenUrl "connection.token_url") :=
    reports_failUrl (by simp [Rule.IsBroken, hauth, c])
  have hany := hbasic.append ((hclient.append hcompany).append htokenUrl)
  cases hmode : s.connection.assertionMode with
  | enter =>
    have hassertion : Reports s [.assertionGiven]
        (failMissing c.assertionToken "connection.assertion_token") :=
      reports_failMissing (by simp [Rule.IsBroken, hauth, hmode, c])
    have hothers : Reports s (credentialRules.drop 6) [] :=
      .of_kept (by simp [credentialRules, Rule.IsBroken, hmode])
    have hall := hany.append (hassertion.append hothers)
    simp only [Connection.credentialFailures, hauth, hmode]
    rwa [List.append_nil] at hall
  | create =>
    have hassertion : Reports s [.assertionGiven] [] := .of_kept (by simp [Rule.IsBroken, hmode])
    have hprivateKey : Reports s [.privateKeyGiven]
        (failMissing c.privateKey "connection.private_key") :=
      reports_failMissing (by simp [Rule.IsBroken, hauth, hmode, c])
    have hvalidity : Reports s [.validityPositive] (failIf (c.expireInMinutes == 0)
        "connection.expire_in_minutes" "must be greater than 0") :=
      reports_failIf (by simp [Rule.IsBroken, hauth, hmode, c])
    have huser : Reports s [.userGiven] (failMissing c.userId "connection.user_id") :=
      reports_failMissing (by simp [Rule.IsBroken, hauth, hmode, c])
    simp only [Connection.credentialFailures, hauth, hmode]
    exact hany.append (hassertion.append ((hprivateKey.append hvalidity).append huser))

/-- Only the rules for the chosen way to authenticate can be broken. -/
theorem reports_credentialFailures (s : Settings) :
    Reports s credentialRules s.connection.credentialFailures := by
  cases hauth : s.connection.authType with
  | basic => exact reports_credentialFailures_basic hauth
  | oauth => exact reports_credentialFailures_oauth hauth

private theorem reports_connectionFailures (s : Settings) :
    Reports s (credentialRules ++ [.baseUrlOnWeb]) s.connection.failures := by
  have hbaseUrl : Reports s [.baseUrlOnWeb]
      (failUrl (some s.connection.baseUrl) "connection.base_url") := reports_failUrl Iff.rfl
  exact (reports_credentialFailures s).append hbaseUrl

/-- Trimming drops no character but blanks. -/
theorem mem_trim_iff {c : Char} {text : String} (h : Text.isBlank c = false) :
    c ∈ (Text.trim text).toList ↔ c ∈ text.toList := by
  have hbefore : c ∉ Text.blanksBefore text := fun hmem ↦ by
    simp [Text.isBlank_of_mem_blanksBefore hmem] at h
  have hbehind : c ∉ Text.blanksBehind text := fun hmem ↦ by
    simp [Text.isBlank_of_mem_blanksBehind hmem] at h
  rw [Text.toList_eq_append_trim text]
  simp [hbefore, hbehind]

/-- An entity is looked through for a key only where it is given. One that is not given is blank,
and so has none. -/
theorem reports_extractFailures (s : Settings) : Reports s extractRules s.extract.failures := by
  let e := s.extract
  have hassociated : Reports s [.associatedWithExpand] (failIf
      (!isBlank e.associatedEntity && isBlank e.expand) "extract.associated_entity"
      "an associated entity requires an expand option") := by
    refine reports_failIf ?_
    rw [Bool.and_eq_true, Bool.not_eq_true', ← Bool.not_eq_true, isBlank_iff, isBlank_iff, not_not]
    rfl
  by_cases hentity : Text.blank e.entity = true
  · have hmissing : Reports s [.entityGiven] (failMissing none "extract.entity") :=
      reports_failMissing (by simp [Rule.IsBroken, IsGiven, hentity, e])
    have hkey : Reports s [.entityWithoutKey] [] := by
      refine .of_kept fun rule hrule ↦ ?_
      obtain rfl := List.mem_singleton.mp hrule
      rintro ⟨hopen, -⟩
      exact absurd (List.all_eq_true.mp hentity _ hopen) (by decide)
    have htrim : (Text.trim s.extract.entity).toList = [] := by
      simpa [trim_eq_empty_iff] using hentity
    have hall := (hmissing.append hkey).append hassociated
    simp only [Extract.failures, htrim, if_true]
    rwa [List.append_nil] at hall
  · have hgiven : Reports s [.entityGiven] [] :=
      .of_kept (by simpa [Rule.IsBroken, IsGiven, e] using hentity)
    have hkey : Reports s [.entityWithoutKey] (failIf
        ((Text.trim e.entity).toList.contains '(' && (Text.trim e.entity).toList.contains ')')
        "extract.entity" "key predicates such as `Products(2)` are not supported") := by
      refine reports_failIf ?_
      simp only [Bool.and_eq_true, List.contains_iff_mem, mem_trim_iff (c := '(') (by decide),
        mem_trim_iff (c := ')') (by decide)]
      rfl
    have htrim : (Text.trim s.extract.entity).toList ≠ [] := by
      simpa [trim_eq_empty_iff] using hentity
    have hall := (hgiven.append hkey).append hassociated
    simp only [Extract.failures, htrim, if_false]
    rwa [List.nil_append] at hall

private theorem reports_retryFailures (s : Settings) : Reports s retryRules s.retry.failures := by
  let r := s.retry
  have hinitial : Reports s [.initialDelayPositive]
      (failIf (r.initialDelay == 0) "retry.initial_delay_secs" "must be greater than 0") :=
    reports_failIf (by simp [Rule.IsBroken, r])
  have hlongest : Reports s [.longestDelayPositive]
      (failIf (r.longestDelay == 0) "retry.max_delay_secs" "must be greater than 0") :=
    reports_failIf (by simp [Rule.IsBroken, r])
  have hretries : Reports s [.retriesPositive]
      (failIf (r.retries == 0) "retry.max_retries" "must be greater than 0") :=
    reports_failIf (by simp [Rule.IsBroken, r])
  have hmultiplier : Reports s [.multiplierAboveOne]
      (failIf (r.multiplier ≤ 1) "retry.multiplier" "must be strictly greater than 1") :=
    reports_failIf (by simp [Rule.IsBroken, r])
  have horder : Reports s [.longestAboveInitial] (failIf (r.longestDelay ≤ r.initialDelay)
      "retry.max_delay_secs" "must be greater than the initial delay") :=
    reports_failIf (by simp [Rule.IsBroken, r])
  exact (((hinitial.append hlongest).append hretries).append hmultiplier).append horder

/-! ## All rules -/

/-- Whether a failure is one of what to extract. -/
def Failure.isOfExtract (f : Failure) : Bool := "extract.".toList.isPrefixOf f.field.toList

/-- Failures are of what to extract where the rules are that they tell of. -/
theorem Reports.isOfExtract_eq {extract : Bool} (h : Reports s rules found)
    (hrules : rules.all ("extract.".toList.isPrefixOf ·.field.toList == extract) = true) :
    ∀ f ∈ found, f.isOfExtract = extract := by
  intro f hf
  obtain ⟨rule, hrule, hfield, -⟩ := h.exists_field_iff.mp ⟨f, hf, rfl⟩
  rw [Failure.isOfExtract, ← hfield]
  exact beq_iff_eq.mp (List.all_eq_true.mp hrules rule hrule)

/-- Checking the connection finds what checking all settings does, but for what to extract. -/
theorem connectionFailures_eq_filter (s : Settings) :
    s.connectionFailures = s.failures.filter (!·.isOfExtract) := by
  have hconnection : ∀ f ∈ s.connection.failures, f.isOfExtract = false :=
    (reports_connectionFailures s).isOfExtract_eq (by decide +kernel)
  have hextract : ∀ f ∈ s.extract.failures, f.isOfExtract = true :=
    (reports_extractFailures s).isOfExtract_eq (by decide +kernel)
  have hretry : ∀ f ∈ s.retry.failures, f.isOfExtract = false :=
    (reports_retryFailures s).isOfExtract_eq (by decide +kernel)
  rw [connectionFailures, failures, List.filter_append, List.filter_append,
    List.filter_eq_self.mpr fun f hf ↦ by simp [hconnection f hf],
    List.filter_eq_nil_iff.mpr fun f hf ↦ by simp [hextract f hf],
    List.filter_eq_self.mpr fun f hf ↦ by simp [hretry f hf], List.append_nil]

/-- Settings are accepted just where no rule is broken. Otherwise each rule that is broken has its
failure, in the order of the rules, so a field has a failure just where one of its rules is broken.
Checking the connection finds the same failures in the same order, but for those of what to
extract. -/
theorem failures_report_allRules (s : Settings) :
    Reports s allRules s.failures ∧
    (∀ field, (∃ f ∈ s.failures, f.field = field) ↔
      ∃ rule : Rule, rule.field = field ∧ rule.IsBroken s) ∧
    (∀ site, ((Command.validate s.failures).run.run site).value = .ok () ↔
      ∀ rule : Rule, ¬ rule.IsBroken s) ∧
    s.connectionFailures = s.failures.filter (!·.isOfExtract) := by
  have hreports : Reports s allRules s.failures :=
    ((reports_connectionFailures s).append (reports_extractFailures s)).append
      (reports_retryFailures s)
  refine ⟨hreports, fun field ↦ ?_, fun site ↦ ?_, connectionFailures_eq_filter s⟩
  · simpa [mem_allRules] using hreports.exists_field_iff
  · have hnone : s.failures = [] ↔ ∀ rule : Rule, ¬ rule.IsBroken s := by
      simpa [mem_allRules] using hreports.eq_nil_iff
    rw [← hnone, Command.validate]
    split
    · next h => exact ⟨fun _ ↦ h, fun _ ↦ rfl⟩
    · next h => exact ⟨nofun, fun hnil ↦ absurd hnil h⟩

/-- Nothing is configured of a connection at first, and retries keep their rules. -/
example : (standard 8).failures.map Failure.field =
    ["connection.username", "connection.password", "connection.base_url", "extract.entity"] := by
  decide +kernel

end Harvest.Settings

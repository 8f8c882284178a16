import Harvest.Settings.Basic

/-!
# Checking settings

Every setting that breaks a rule is reported, each with its own message, in a fixed order.
Design: `SPEC_FULL.md:226–231`.
-/

namespace Harvest.Settings

/-- A setting that breaks a rule. -/
structure Failure where
  field : String
  message : String
deriving DecidableEq, Repr, Inhabited

/-- The text of a failure. -/
def Failure.text (f : Failure) : String := f.field ++ ": " ++ f.message

/-- The wording of all failures. -/
def failuresMessage (failures : List Failure) : String :=
  "invalid configuration: " ++ "; ".intercalate (failures.map Failure.text)

/-- A failure where a condition holds. -/
def failIf (condition : Bool) (field message : String) : List Failure :=
  if condition then [⟨field, message⟩] else []

/-- Whether an optional text is missing or blank. -/
def isBlank (value : Option String) : Bool := (trimmed value).isEmpty

/-- A setting that has to be there. -/
def failMissing (value : Option String) (field : String) : List Failure :=
  failIf (isBlank value) field "required value is missing"

/-- A setting that has to be there and to be a web URL. -/
def failUrl (value : Option String) (field : String) : List Failure :=
  if isBlank value then failMissing value field
  else
    let text := trimmed value
    match Url.parse text with
    | .error e => [⟨field, "invalid URL `" ++ text ++ "`: " ++ e.message⟩]
    | .ok url =>
      failIf (!url.isWeb) field ("unsupported scheme `" ++ String.ofList url.scheme ++ "`")

/-- What keeps credentials from being set up. Design: `SPEC_FULL.md:226–228`. -/
def Connection.credentialFailures (c : Connection) : List Failure :=
  match c.authType with
  | .basic =>
    failMissing c.username "connection.username" ++ failMissing c.password "connection.password"
  | .oauth =>
    failMissing c.clientId "connection.client_id"
      ++ failMissing c.companyId "connection.company_id"
      ++ failUrl c.tokenUrl "connection.token_url"
      ++ match c.assertionMode with
        | .enter => failMissing c.assertionToken "connection.assertion_token"
        | .create =>
          failMissing c.privateKey "connection.private_key"
            ++ failIf (c.expireInMinutes == 0) "connection.expire_in_minutes"
              "must be greater than 0"
            ++ failMissing c.userId "connection.user_id"

/-- What is wrong with a connection. Design: `SPEC_FULL.md:226–229`. -/
def Connection.failures (c : Connection) : List Failure :=
  c.credentialFailures ++ failUrl (some c.baseUrl) "connection.base_url"

/-- What is wrong with what to extract. Design: `SPEC_FULL.md:229–230`. -/
def Extract.failures (e : Extract) : List Failure :=
  let entity := (Text.trim e.entity).toList
  (if entity = [] then failMissing none "extract.entity"
    else failIf (entity.contains '(' && entity.contains ')') "extract.entity"
      "key predicates such as `Products(2)` are not supported")
  ++ failIf (!isBlank e.associatedEntity && isBlank e.expand) "extract.associated_entity"
    "an associated entity requires an expand option"

/-- What is wrong with retries. Design: `SPEC_FULL.md:230–231`. -/
def Retry.failures (r : Retry) : List Failure :=
  failIf (r.initialDelay == 0) "retry.initial_delay_secs" "must be greater than 0"
    ++ failIf (r.longestDelay == 0) "retry.max_delay_secs" "must be greater than 0"
    ++ failIf (r.retries == 0) "retry.max_retries" "must be greater than 0"
    ++ failIf (r.multiplier ≤ 1) "retry.multiplier" "must be strictly greater than 1"
    ++ failIf (r.longestDelay ≤ r.initialDelay) "retry.max_delay_secs"
      "must be greater than the initial delay"

/-- What keeps an extraction from being run. Design: `SPEC_FULL.md:226–231`. -/
def failures (s : Settings) : List Failure :=
  s.connection.failures ++ s.extract.failures ++ s.retry.failures

/-- What keeps the connection from being checked. -/
def connectionFailures (s : Settings) : List Failure :=
  s.connection.failures ++ s.retry.failures

/-- Whether a field is among those that failed. -/
def hasField (failures : List Failure) (field : String) : Bool :=
  failures.any (·.field == field)

end Harvest.Settings

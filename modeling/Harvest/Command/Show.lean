import Harvest.Command.Step

/-!
# Showing settings

The settings as a table. Secrets are only said to be there or not.
Design: `SPEC_FULL.md:276`.
-/

namespace Harvest.Command

open Settings (Connection)

/-- Whether something is configured that is not shown. -/
def configured (value : Option String) : String :=
  if value.any (· ≠ "") then "configured" else "not set"

/-- The rows about credentials. -/
def credentialRows (c : Connection) : List (String × String) :=
  match c.authType with
  | .basic =>
    [("Auth", "basicAuth"), ("Username", orDash c.username), ("Password", configured c.password)]
  | .oauth =>
    [("Auth", "oAuth2"), ("Token URL", orDash c.tokenUrl), ("Client ID", configured c.clientId),
      ("Company ID", orDash c.companyId)]
    ++ match c.assertionMode with
      | .enter => [("Assertion", configured c.assertionToken)]
      | .create =>
        [("User ID", orDash c.userId), ("Private key", configured c.privateKey),
          ("Assertion expiry", s!"{c.expireInMinutes}m")]

/-- The rows about settings. -/
def settingsRows (s : Settings) : List (String × String) :=
  [("Base URL", s.connection.baseUrl)] ++ credentialRows s.connection ++
    [("Proxy", orDash s.connection.proxyUrl), ("Entity", s.extract.entity),
      ("Filter", orDash s.extract.filter), ("Select", orDash s.extract.select),
      ("Expand", orDash s.extract.expand),
      ("Retry", s!"{s.retry.retries} retries, {s.retry.initialDelay}s..{s.retry.longestDelay}s " ++
        s!"x{s.retry.multiplier}"),
      ("Splits", s!"{s.planner.defaultSplitCount} (max: {s.planner.maxSplitCount})"),
      ("Batch size", s!"{s.planner.defaultBatchSize} (max: {s.planner.maxBatchSize})"),
      ("Output directory", s.outputDir),
      ("Workers", s!"{s.workers.default} (max: {s.workers.max})")]

/-- Show settings. -/
def showSettings (s : Settings) : Step Unit := tellTable (summary "Setting" (settingsRows s))

end Harvest.Command

import Harvest.Http.Wire
import Harvest.Main
import Harvest.Session
import Harvest.Progress
import Harvest.Proofs.Plan.Pages
import Harvest.Proofs.Plan.Coverage
import Harvest.Proofs.Plan.Failures
import Harvest.Proofs.Plan.Sizes
import Harvest.Proofs.Plan.Shift
import Harvest.Proofs.Plan.Bounded
import Harvest.Proofs.Transport.Retry
import Harvest.Proofs.Queue.Claims
import Harvest.Proofs.Extraction.Steps
import Harvest.Proofs.Disk.Walk
import Harvest.Proofs.Disk.Change
import Harvest.Proofs.Extraction.Pages
import Harvest.Proofs.Extraction.Records
import Harvest.Proofs.Extraction.Splits
import Harvest.Proofs.Extraction.Completeness
import Harvest.Proofs.Session.Moments
import Harvest.Proofs.Session.Calls
import Harvest.Proofs.Session.Operations
import Harvest.Proofs.Session.Tokens
import Harvest.Proofs.Http.Attempts
import Harvest.Proofs.Extraction.Pool
import Harvest.Proofs.Extraction.Jobs
import Harvest.Proofs.Extraction.Outcomes
import Harvest.Proofs.Text.Utf8
import Harvest.Proofs.Endpoints.Options
import Harvest.Proofs.Extraction.Unhindered
import Harvest.Proofs.Disk.Alike
import Harvest.Proofs.Extraction.Steady
import Harvest.Proofs.Extraction.Orders
import Harvest.Proofs.Transport.Keeps
import Harvest.Proofs.Extraction.Stops
import Harvest.Proofs.Extraction.InFlight
import Harvest.Proofs.Endpoints.Meaning
import Harvest.Proofs.Text.Blank
import Harvest.Proofs.Url.Hosts
import Harvest.Proofs.Url.Blanks
import Harvest.Proofs.Settings.Usable
import Harvest.Proofs.Token.Failures
import Harvest.Proofs.Command.Preview
import Harvest.Proofs.Service.Verdicts
import Harvest.Manifest.File
import Harvest.Proofs.Json.Strings
import Harvest.Proofs.Json.Tokens
import Harvest.Proofs.Json.Entries
import Harvest.Proofs.Json.Results
import Harvest.Proofs.Instant.Calendar
import Harvest.Proofs.Instant.Text
import Harvest.Proofs.Instant.Writable
import Harvest.Proofs.Manifest.RoundTrip
import Harvest.Proofs.Disk.Target
import Harvest.Proofs.Extraction.Drafts
import Harvest.Proofs.Session.Ways
import Harvest.Proofs.Transport.Backoff
import Harvest.Proofs.Extraction.Confinement
import Harvest.Proofs.Plan.PageCounts
import Harvest.Proofs.Url.Segments
import Harvest.Proofs.Endpoints.Paths
import Harvest.Proofs.Endpoints.Values
import Harvest.Proofs.Json.Records
import Harvest.Proofs.Token.Exchanges
import Harvest.Proofs.Service.Numerals
import Harvest.Proofs.Service.EntitySets
import Harvest.Proofs.Text.Boundary
import Harvest.Proofs.Service.ErrorDocuments
import Harvest.Proofs.Service.Refusals
import Harvest.Proofs.Settings.Rules
import Harvest.Proofs.Extraction.Changes
import Harvest.Proofs.Url.Provider
import Harvest.Proofs.Extraction.Outputs
import Harvest.Proofs.Text.Grouped

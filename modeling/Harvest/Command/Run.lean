import Harvest.Command.Fetch
import Harvest.Command.Help
import Harvest.Command.Show
import Harvest.Log.Filter
import Harvest.Settings.File

/-!
# Running the program

From the words of a command line to what is printed and the exit code: 0 where the command has
done what it was asked for, 1 where it failed, 2 where the command line makes no sense, and 134
where the command panicked.
Design: `SPEC_FULL.md:200,274–277`.
-/

namespace Harvest.Command

/-- What is left of a run. -/
structure Outcome where
  code : Nat
  output : String
  errors : String
deriving DecidableEq, Repr

/-- The failure that a settings file is. -/
def fileFailure : Settings.FileError → Failure
  | .unreadable path fault =>
    .because ("Failed to read config file: " ++ path) (.plain fault.message)
  | .malformed path =>
    .because ("Failed to parse config file: " ++ path) (.plain "no settings in TOML format")

/-- Load the settings. -/
def loadSettings (s : Surroundings) (path : Option String) : Step Settings := do
  let (settings, line) ←
    orFail fileFailure (Settings.load s.environment s.processors (← disk) path)
  act (Act.reportAll [line])
  return settings

/-- Go about a task. -/
def perform (s : Surroundings) (settings : Settings) : Task → Step Unit
  | .plan available range => showPlan settings available range
  | .count selection => count settings selection
  | .check selection probed metadata => check settings selection probed metadata
  | .entities contains => entities settings contains
  | .fetch selection output range workers => fetch s settings selection output range workers
  | .config => showSettings settings

/-- Load the settings and go about the task of a job. -/
def runJob (s : Surroundings) (job : Job) : Step Unit := do
  perform s (← loadSettings s job.config) job.task

/-- The name of the variable that holds the filter of log lines. -/
def filterVariable : String := "RUST_LOG"

/-- The filter of log lines, and what is said of it. -/
def logFilter (env : Settings.Environment) (debug : Bool) : Log.Filter × List String :=
  match env.lookup filterVariable with
  | some text => Log.Filter.parse text
  | none => (.upTo (if debug then Log.Level.debug else Log.Level.info).rank, [])

/-- What an event prints to a stream. -/
def printedBy (filter : Log.Filter) (stream : Stream) : Event → String
  | .log line =>
    if stream = .errors && filter.admits line then line.printed ++ "\n" else ""
  | .print target text => if target = stream then text else ""
  | _ => ""

/-- What a trace prints to a stream. -/
def printed (filter : Log.Filter) (stream : Stream) (trace : List Event) : String :=
  String.join (trace.map (printedBy filter stream))

/-- The outcome of a job, and what it makes of a site. -/
def runOnSite (s : Surroundings) (job : Job) (site : Site Http.Server) :
    Outcome × Site Http.Server :=
  let (filter, problems) := logFilter s.environment job.debug
  let result := (runJob s job).run.run site
  let problemText := String.join (problems.map (· ++ "\n"))
  let (code, failure) := match result.value with
    | .ok () => (0, "")
    | .error f => (f.code, f.text)
  ({ code
     output := printed filter .output result.trace
     errors := problemText ++ printed filter .errors result.trace ++ failure },
    result.state)

/-- What is printed where a command line makes no sense. -/
def misuseText : String :=
  s!"error: the arguments make no sense\n\nFor more information, try '--help'.\n"

/-- Run the program with the words of a command line. -/
def run (s : Surroundings) (words : List String) (site : Site Http.Server) :
    Outcome × Site Http.Server :=
  match readArguments words with
  | .job job => runOnSite s job site
  | .help topic => (⟨0, topic.text, ""⟩, site)
  | .version => (⟨0, versionText, ""⟩, site)
  | .misuse => (⟨2, "", misuseText⟩, site)

end Harvest.Command

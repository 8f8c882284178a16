/-!
# Log lines

What the library reports while it works. A line names the part of the library that wrote it, so
that a filter can choose lines by part as well as by level.
Design: `SPEC_FULL.md:194–202`.
-/

namespace Harvest.Log

/-- How much a line matters, the most urgent first. -/
inductive Level where
  | error
  | warn
  | info
  | debug
  | trace
deriving DecidableEq, Repr, Inhabited

/-- The rank of a level: the smaller, the more urgent. -/
def Level.rank : Level → Nat
  | error => 1
  | warn => 2
  | info => 3
  | debug => 4
  | trace => 5

/-- The name of a level as reports write it. -/
def Level.name : Level → String
  | error => "ERROR"
  | warn => "WARN"
  | info => "INFO"
  | debug => "DEBUG"
  | trace => "TRACE"

/-- The part of the program that writes a line. -/
inductive Source where
  | planner
  | endpoints
  | retry
  | transport
  | token
  | service
  | extraction
  | client
  | settings
deriving DecidableEq, Repr, Inhabited

/-- One reported line. -/
structure Line where
  level : Level
  source : Source
  text : String
deriving DecidableEq, Repr, Inhabited

end Harvest.Log

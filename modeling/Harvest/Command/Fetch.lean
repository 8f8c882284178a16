import Harvest.Command.Inspect
import Harvest.Command.Plan

/-!
# Extracting

Count the records, divide them and extract the splits. Only where every split was completed has
the command done what it was asked for.
Design: `SPEC_FULL.md:263–272`.
-/

namespace Harvest.Command

/-- A number of nanoseconds in seconds with one decimal. -/
def secondsText (nanos : Nat) : String :=
  let tenths := roundHalfEven nanos 100000000
  s!"{tenths / 10}.{tenths % 10}s"

/-- The rows about an extraction that took a number of nanoseconds. -/
def fetchRows (m : Manifest) (x : Extraction Http.Server) (nanos : Nat) :
    List (String × String) :=
  let completed := m.count (· == .completed)
  let interrupted := m.count (· == .interrupted)
  [("Entity", m.entity), ("Available", Text.grouped m.available),
    ("Splits",
      s!"{completed} completed, {m.failures} failed, {interrupted} interrupted"),
    ("Pages", Text.grouped m.totalPages), ("Bytes", ByteSize.text m.totalBytes),
    ("Workers", toString x.workers), ("Output", x.directory), ("Elapsed", secondsText nanos)]

/-- Fail unless every split was completed. -/
def judge (m : Manifest) : Step Unit :=
  if 0 < m.failures then throw (.plain s!"{m.failures} of {m.splits.length} splits failed")
  else if m.isComplete then pure ()
  else throw (.plain s!"Extraction interrupted; {m.totalPages} pages written")

/-- The time. -/
def now (s : Surroundings) : Step Instant := do
  return s.watch.now (← act Act.get).world.peer

/-- Extract what is configured. Design: `SPEC_FULL.md:263–272`. -/
def fetch (s : Surroundings) (settings : Settings) (selection : Selection)
    (output : Option String) (range : Range) (workers : Option Nat) : Step Unit := do
  let settings := range.configure (selection.configure settings)
  let service ← connect settings
  let started ← now s
  let available ← inWorld service.recordCount
  let splits ← planSplits settings.planner (settings.extract.planRequest available)
  if ← act (Extraction.look s.watch) then
    throw (.plain "Interrupted before extraction started")
  let x : Extraction Http.Server :=
    { service, outputDir := output.getD settings.outputDir,
      workers := settings.workers.resolve workers, watch := s.watch, buildPool := s.buildPool }
  let manifest ← actOrFail .ofService (x.run available splits)
  tellTable (summary "Fetch" (fetchRows manifest x (started.nanosUntil (← now s))))
  judge manifest

end Harvest.Command

import Harvest.Arithmetic
import Harvest.Command.Arguments
import Harvest.Command.Step

/-!
# Showing plans

A plan as a table: a row for each split, and their total.
Design: `SPEC_FULL.md:274–275`.
-/

namespace Harvest.Command

open Plan (Split)

/-- Plan, and report what is planned. -/
def planSplits (limits : Plan.Limits) (request : Plan.Request) : Step (List Split) := do
  act (Act.reportAll (Plan.planReport limits request))
  orFail .ofHalt (Plan.plan limits request)

/-- The row of a split. -/
def splitRow (index : Nat) (s : Split) : List Table.Cell :=
  [index, s.first, s.last, s.recordCount, s.batch, s.pageCount].map fun n ↦
    .right (Text.grouped n)

/-- The row of the total. -/
def totalRow (splits : List Split) : List Table.Cell :=
  [.left "total", .empty, .empty, .right (Text.grouped (splits.map (·.recordCount)).sum)]

/-- The table of a plan. Design: `SPEC_FULL.md:274–275`. -/
def splitTable (splits : List Split) : Table :=
  .withHeadings ["Split", "Start", "End", "Records", "Batch", "Pages"]
    ((splits.zipIdx.map fun (s, index) ↦ splitRow index s) ++ [totalRow splits])

/-- The splits that are shown for a number of available records. -/
def shownSplits (settings : Settings) (available : Nat) (range : Range) : Step (List Split) :=
  planSplits settings.planner (range.override (settings.extract.planRequest available))

/-- Show how records would be divided. Design: `SPEC_FULL.md:274–275`. -/
def showPlan (settings : Settings) (available : Nat) (range : Range) : Step Unit := do
  tellTable (splitTable (← shownSplits settings available range))

end Harvest.Command

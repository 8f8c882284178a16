import Harvest.Arithmetic
import Harvest.Instant.Basic

/-!
# Manifests

What an extraction leaves beside its pages: where the records came from, and for every split that
was taken up how far it came.
Design: `SPEC_FULL.md:270–272`.
-/

namespace Harvest

namespace Manifest

/-- How a split ended. Design: `SPEC_FULL.md:270–271`. -/
inductive Outcome where
  | completed
  | failed (error : String)
  | interrupted
deriving DecidableEq, Repr, Inhabited

/-- What became of one split: its place in the plan, its range, and what was written of it.
Design: `SPEC_FULL.md:270–271`. -/
structure Record where
  index : Nat
  first : Nat
  last : Nat
  batch : Nat
  pages : Nat
  bytes : Nat
  outcome : Outcome
deriving DecidableEq, Repr, Inhabited

end Manifest

/-- The summary of one extraction. Design: `SPEC_FULL.md:270–272`. -/
structure Manifest where
  entity : String
  baseUrl : String
  available : Nat
  splits : List Manifest.Record
  started : Instant
  finished : Instant
deriving DecidableEq, Repr, Inhabited

namespace Manifest

/-- The pages of all splits. Design: `SPEC_FULL.md:271`. -/
def totalPages (m : Manifest) : Nat := (m.splits.map (·.pages)).sum

/-- The bytes of all splits. Design: `SPEC_FULL.md:271`. -/
def totalBytes (m : Manifest) : Nat := (m.splits.map (·.bytes)).sum

/-- Whether an outcome is a failure. -/
def Outcome.isFailed : Outcome → Bool
  | failed _ => true
  | _ => false

/-- The number of splits with an outcome of a kind. -/
def count (m : Manifest) (kind : Outcome → Bool) : Nat := m.splits.countP (kind ·.outcome)

/-- The number of splits that failed. -/
def failures (m : Manifest) : Nat := m.count Outcome.isFailed

/-- Whether every split of the manifest was completed. -/
def isComplete (m : Manifest) : Bool := m.splits.all (·.outcome == .completed)

/-- The name of the file that a manifest is kept in. Design: `SPEC_FULL.md:270`. -/
def fileName : String := "manifest.json"

end Manifest

end Harvest

import Harvest.Arithmetic
import Harvest.Log
import Harvest.Plan.Split

/-!
# Planning

Divide the records that a request asks for into contiguous splits of nearly equal size. `layout?`
settles the numbers of a plan, and `plan` lists its splits, each starting behind the one before.
What does not divide evenly goes to the first splits, one record each.
Design: `SPEC_FULL.md:64–92,129–134`.
-/

namespace Harvest.Plan

/-- Bounds on what a plan may ask for. The defaults apply where a request asks for 0.
Design: `SPEC_FULL.md:129–134`. -/
structure Limits where
  defaultSplitCount : Nat
  maxSplitCount : Nat
  defaultBatchSize : Nat
  maxBatchSize : Nat
deriving DecidableEq, Repr

/-- The limits of an unconfigured plan. Design: `SPEC_FULL.md:90–92`. -/
def Limits.standard : Limits := ⟨8, 10, 2500, 5000⟩

instance : Inhabited Limits := ⟨Limits.standard⟩

/-- The fields of the limits under the names that messages use. -/
def Limits.fields (l : Limits) : List (String × Nat) :=
  [("default_split_count", l.defaultSplitCount), ("max_split_count", l.maxSplitCount),
    ("default_batch_size", l.defaultBatchSize), ("max_batch_size", l.maxBatchSize)]

/-- The name of the first limit that is zero. Design: `SPEC_FULL.md:132`. -/
def Limits.firstZero? (l : Limits) : Option String :=
  (l.fields.find? (·.2 == 0)).map (·.1)

/-- What to extract: 0 stands for the default in every field but `available` and `skip`.
Design: `SPEC_FULL.md:48–52`. -/
structure Request where
  available : Nat
  fetch : Nat
  skip : Nat
  splitCount : Nat
  batchSize : Nat
deriving DecidableEq, Repr, Inhabited

/-- Why a request has no plan. Design: `SPEC_FULL.md:65–66,132`. -/
inductive Error where
  | invalidRange (available skip fetch : Nat)
  | invalidLimits (limit : String)
deriving DecidableEq, Repr, Inhabited

/-- The wording of a planning error. -/
def Error.message : Error → String
  | .invalidRange available skip fetch =>
    s!"no records to extract: {available} available, skip={skip}, fetch={fetch}; " ++
      "check the number of rows to skip and to fetch"
  | .invalidLimits limit => "planner limit `" ++ limit ++ "` must be greater than 0"

/-- How planning ends without a plan: the request is refused, or its splits take more room than can
be asked for at once, and planning panics. -/
inductive Halt where
  | refused (e : Error)
  | capacityOverflow
deriving DecidableEq, Repr, Inhabited

/-- The wording of a halt. -/
def Halt.message : Halt → String
  | .refused e => e.message
  | .capacityOverflow => "capacity overflow"

/-- The greatest number of records that a request can name. -/
def greatestCount : Nat := 2 ^ 64 - 1

/-- A sum, at most the greatest count. -/
def saturatingAdd (a b : Nat) : Nat :=
  min (a + b) greatestCount

/-- A number that was asked for, or the default where none was. -/
def orDefault (asked default : Nat) : Nat :=
  if asked = 0 then default else asked

namespace Request

/-- The records behind the skipped ones. Design: `SPEC_FULL.md:68`. -/
def remaining (r : Request) : Nat :=
  r.available - r.skip

/-- The records to extract before they are compared with what is available.
Design: `SPEC_FULL.md:68`. -/
def wanted (r : Request) : Nat :=
  orDefault r.fetch r.remaining

/-- The records to extract. Design: `SPEC_FULL.md:68–70`. -/
def toExtract (r : Request) : Nat :=
  if saturatingAdd r.skip r.wanted > r.available then r.remaining else r.wanted

end Request

/-- The numbers of a plan. Design: `SPEC_FULL.md:51–52,68–78`. -/
structure Layout where
  /-- The records before the first one extracted. -/
  skip : Nat
  /-- The records extracted. -/
  total : Nat
  splitCount : Nat
  /-- The records of a split that carries none of the leftover ones. -/
  perSplit : Nat
  /-- The records that are left after an even division. -/
  leftover : Nat
  /-- The batch of a split that carries none of the leftover records. -/
  batch : Nat
deriving DecidableEq, Repr, Inhabited

/-- The batch size asked for, at most what is extracted and what the limits allow.
Design: `SPEC_FULL.md:71–72`. -/
def batchSize (l : Limits) (r : Request) : Nat :=
  min (min (orDefault r.batchSize l.defaultBatchSize) r.toExtract) l.maxBatchSize

/-- The number of splits: one where a default batch holds everything, and never more than the
limit or than there are records. Design: `SPEC_FULL.md:73–75,132–134`. -/
def splitCount (l : Limits) (r : Request) : Nat :=
  let asked :=
    if batchSize l r ≤ l.defaultBatchSize ∧ r.toExtract ≤ l.defaultBatchSize then 1
    else orDefault r.splitCount l.defaultSplitCount
  min (min asked l.maxSplitCount) r.toExtract

/-- The layout of a request that asks for something within limits that are all positive.
Design: `SPEC_FULL.md:71–78`. -/
def layout (l : Limits) (r : Request) : Layout :=
  let splits := splitCount l r
  let perSplit := r.toExtract / splits
  { skip := r.skip
    total := r.toExtract
    splitCount := splits
    perSplit
    leftover := r.toExtract % splits
    batch := min perSplit (batchSize l r) }

/-- The layout of a request, or why there is none. Design: `SPEC_FULL.md:68–78,132`. -/
def layout? (l : Limits) (r : Request) : Except Error Layout :=
  match l.firstZero? with
  | some limit => .error (.invalidLimits limit)
  | none =>
    if r.toExtract = 0 then .error (.invalidRange r.available r.skip r.fetch)
    else .ok (layout l r)

namespace Layout

/-- 1 for a split that carries a leftover record, else 0. Design: `SPEC_FULL.md:79–81`. -/
def extra (l : Layout) (i : Nat) : Nat :=
  if i < l.leftover then 1 else 0

/-- Split `i` of a plan, from a given first record on. Design: `SPEC_FULL.md:79–81`. -/
def splitFrom (l : Layout) (i first : Nat) : Split where
  first
  last := first - 1 + l.perSplit + l.extra i
  batch := l.batch + l.extra i

/-- The next splits of a plan, `n` of them: from split `i` on, the first one starting at a given
record and each of the others behind the one before. Design: `SPEC_FULL.md:79–81`. -/
def emit (l : Layout) : (n i first : Nat) → List Split
  | 0, _, _ => []
  | n + 1, i, first =>
    let split := l.splitFrom i first
    split :: l.emit n (i + 1) (split.last + 1)

/-- The splits of a plan in order. Design: `SPEC_FULL.md:79–84`. -/
def splits (l : Layout) : List Split :=
  l.emit l.splitCount 0 (l.skip + 1)

/-- What is reported of a plan. Design: `SPEC_FULL.md:201`. -/
def report (l : Layout) (available : Nat) : List Log.Line :=
  [ s!"Total available records: {available}",
    s!"Records to skip: {l.skip}",
    s!"Records to extract: {l.total}",
    s!"Extraction range: {l.skip + 1}..={l.skip + l.total}",
    s!"Calculated split count: {l.splitCount}",
    s!"Records per split: {l.perSplit} (+1 on the first {l.leftover})",
    s!"Batch size per split: {l.batch}" ].map (⟨.info, .planner, ·⟩)

end Layout

/-- The bytes of a split: three numbers of 64 bits. -/
def splitBytes : Nat := 24

/-- The greatest number of bytes that room can be asked for at once. -/
def greatestRoom : Nat := 2 ^ 63 - 1

/-- Whether the splits of a layout take more room than can be asked for at once. -/
def Layout.overflows (l : Layout) : Bool := decide (greatestRoom < splitBytes * l.splitCount)

/-- The splits for a request, or how planning ends without any. Room for all splits is asked for
before the first one is listed. Design: `SPEC_FULL.md:65–66`. -/
def plan (l : Limits) (r : Request) : Except Halt (List Split) :=
  match layout? l r with
  | .error e => .error (.refused e)
  | .ok layout => if layout.overflows then .error .capacityOverflow else .ok layout.splits

/-- What is reported while a request is planned: nothing where it is refused. -/
def planReport (l : Limits) (r : Request) : List Log.Line :=
  match layout? l r with
  | .ok layout => layout.report r.available
  | .error _ => []

end Harvest.Plan

/-!
# Splits and pages

A split is a range of records, counted from 1 with both ends included, together with the number of
records to ask for at a time. Its pages are the requests that walk through the range: each skips
the records before it and takes a full batch, the last one what is left.
Design: `SPEC_FULL.md:43–46,260–261`.
-/

namespace Harvest.Plan

/-- One request for records: how many to skip and how many to take.
Design: `SPEC_FULL.md:260–261`. -/
structure Page where
  skip : Nat
  top : Nat
deriving DecidableEq, Repr, Inhabited

/-- A range of records that is fetched by one worker, in batches. Design: `SPEC_FULL.md:43–46`. -/
structure Split where
  first : Nat
  last : Nat
  batch : Nat
deriving DecidableEq, Repr, Inhabited

/-- A place in a range: the next record to request, the last one, and the size of a batch. -/
structure Cursor where
  next : Nat
  last : Nat
  batch : Nat
deriving DecidableEq, Repr

/-- The records asked for by the next page: a batch, or what is left of the range.
Design: `SPEC_FULL.md:260–261`. -/
def Cursor.top (c : Cursor) : Nat :=
  min c.batch (c.last - c.next + 1)

/-- The next page and the place behind it; `none` when the range is used up.
Design: `SPEC_FULL.md:260–261`. -/
def Cursor.step? (c : Cursor) : Option (Page × Cursor) :=
  if c.next > c.last then none
  else some (⟨c.next - 1, c.top⟩, { c with next := c.next + c.top })

/-- The next pages, at most `n` of them. -/
def Cursor.take : Nat → Cursor → List Page
  | 0, _ => []
  | n + 1, c =>
    match c.step? with
    | none => []
    | some (page, rest) => page :: rest.take n

namespace Split

/-- The number of records of a split. -/
def recordCount (s : Split) : Nat :=
  s.last - s.first + 1

/-- The place before the first record of a split. -/
def cursor (s : Split) : Cursor :=
  ⟨s.first, s.last, s.batch⟩

/-- The pages of a split in order. A page asks for at least one record, so there are never more
pages than records. Design: `SPEC_FULL.md:260–261`. -/
def pages (s : Split) : List Page :=
  s.cursor.take s.recordCount

/-- The number of pages: the records divided by the batch, rounded up. -/
def pageCount (s : Split) : Nat :=
  (s.recordCount + s.batch - 1) / s.batch

end Split

end Harvest.Plan

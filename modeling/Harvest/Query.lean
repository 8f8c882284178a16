import Harvest.Text.Blank

/-!
# Entity queries

Which entity to read and which fragments to pass along with it. A blank fragment counts as none,
and the blanks around a fragment do not count.
Design: `SPEC_FULL.md:151–156`.
-/

namespace Harvest

/-- What to read of a service. Design: `SPEC_FULL.md:155–156`. -/
structure Query where
  entity : String
  associatedEntity : Option String
  filter : Option String
  select : Option String
  expand : Option String
  /-- Fields that pages are asked for where no selection is configured. -/
  defaultFields : List String
deriving DecidableEq, Repr, Inhabited

namespace Query

/-- A query for everything of no entity. -/
def empty : Query := ⟨"", none, none, none, none, []⟩

/-- The filter, unless it is blank. -/
def filter? (q : Query) : Option String := q.filter.bind Text.nonBlank

/-- The selection, unless it is blank. -/
def select? (q : Query) : Option String := q.select.bind Text.nonBlank

/-- The expansion, unless it is blank. -/
def expand? (q : Query) : Option String := q.expand.bind Text.nonBlank

/-- The associated entity, unless it is blank. -/
def associatedEntity? (q : Query) : Option String := q.associatedEntity.bind Text.nonBlank

/-- The selection for pages: the configured one, else the default fields and the expansion.
Design: `SPEC_FULL.md:156,240–241`. -/
def pageSelect? (q : Query) : Option String :=
  match q.select? with
  | some select => some select
  | none =>
    if q.defaultFields = [] then none
    else
      let fields := ",".intercalate q.defaultFields
      some (match q.expand? with
        | some expand => fields ++ "," ++ expand
        | none => fields)

end Query

end Harvest

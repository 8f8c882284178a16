/-!
# Names of page files

Every page of an extraction goes into a file of its own, named for the split and the page within
it, both counted from 0.
Design: `SPEC_FULL.md:267–268`.
-/

namespace Harvest.Plan

/-- The name of the file of a page. Design: `SPEC_FULL.md:268`. -/
def pageFileName (split page : Nat) : String := s!"split_{split}_page_{page}.json"

end Harvest.Plan

/-!
# Progress labels

What a progress line shows beside its bar. Away from a terminal bars are hidden: they have neither
a label nor a length.
Design: `SPEC_FULL.md:197–199,273`.
-/

namespace Harvest.Progress

/-- The characters of a label that a split's bar has room for. -/
def labelWidth : Nat := 14

/-- A bar: its label, and the number of records it counts to. -/
structure Bar where
  label : String
  length : Option Nat
deriving DecidableEq, Repr

/-- A bar that is not shown. -/
def Bar.hidden : Bar := ⟨"", none⟩

/-- The bar that counts the records of one split. Design: `SPEC_FULL.md:273`. -/
def splitBar (terminal : Bool) (label : String) (records : Nat) : Bar :=
  if terminal then ⟨String.ofList (label.toList.take labelWidth), some records⟩ else .hidden

/-- The line of a single long step. -/
def stageLine (terminal : Bool) (label : String) : Bar :=
  if terminal then ⟨label, none⟩ else .hidden

end Harvest.Progress

/-!
# Grouped numbers

A count is printed in decimal with a comma before every third digit from the right.
-/

namespace Harvest.Text

/-- Put a comma after each digit that has a positive multiple of three digits to its right. -/
def groupDigits : List Char → List Char
  | [] => []
  | d :: rest =>
    if rest ≠ [] ∧ rest.length % 3 = 0 then d :: ',' :: groupDigits rest
    else d :: groupDigits rest

/-- A number in decimal with grouped digits. -/
def grouped (n : Nat) : String :=
  String.ofList (groupDigits (Nat.toDigits 10 n))

/-- Without its commas a grouped number is the number. -/
theorem filter_groupDigits {ds : List Char} (h : ∀ d ∈ ds, d ≠ ',') :
    (groupDigits ds).filter (· ≠ ',') = ds := by
  induction ds with
  | nil => rfl
  | cons d ds ih =>
    have hd : d ≠ ',' := h d (by simp)
    have ih := ih fun x hx ↦ h x (by simp [hx])
    rw [groupDigits]
    split <;> simp_all

end Harvest.Text

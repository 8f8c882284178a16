/-!
# Natural numbers

Powers and sums of natural numbers are those of the core library, also where a theory of algebra
offers its own, so that a formula means the same in every module.
-/

namespace Harvest

/-- Powers of natural numbers, ahead of those of monoids. -/
@[default_instance 100000]
instance (priority := high) natPow : Pow Nat Nat := instPowNat

/-- The zero that sums of natural numbers start from, ahead of those of monoids. -/
instance (priority := high) natZero : Zero Nat := Zero.ofOfNat0

end Harvest

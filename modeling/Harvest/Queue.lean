/-!
# Work queues

A queue hands out each of its items once, together with its position, in order.
Design: `SPEC_FULL.md:264–267`.
-/

namespace Harvest

/-- Items and how many claims have been made on them. Design: `SPEC_FULL.md:266–267`. -/
structure Queue (α : Type) where
  items : List α
  claims : Nat

namespace Queue

variable {α : Type}

/-- A queue on which no claim has been made. -/
def ofList (items : List α) : Queue α := ⟨items, 0⟩

/-- Claim the next item and its position; a claim beyond the end gets none, and counts too.
Design: `SPEC_FULL.md:266–267`. -/
def next (q : Queue α) : Option (Nat × α) × Queue α :=
  (q.items[q.claims]?.map (q.claims, ·), { q with claims := q.claims + 1 })

/-- The number of items. -/
def total (q : Queue α) : Nat := q.items.length

/-- The number of items not claimed yet. -/
def remaining (q : Queue α) : Nat := q.total - q.claims

/-- What the next `n` claims get. -/
def take : Nat → Queue α → List (Nat × α)
  | 0, _ => []
  | n + 1, q =>
    match q.next with
    | (none, _) => []
    | (some item, q) => item :: q.take n

/-- What is handed out from now on, in order. -/
def waiting (q : Queue α) : List (Nat × α) := q.take q.remaining

end Queue

end Harvest

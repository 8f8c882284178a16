import Harvest.Arithmetic
import Harvest.Queue
import Mathlib.Data.List.Nodup

/-!
# Claims on a queue

Workers share a queue by claiming from it, one claim after the other. What a claim gets follows from
the number of claims before it, whoever made them: the first ones get the items in order, and those
beyond the last item get none, though they count. Claims are counted by a word of 64 bits, which is
no different from a number until it starts again at zero.
Design: `SPEC_FULL.md:266–267`.
-/

namespace Harvest

namespace Queue

variable {α : Type} {q : Queue α} {item : Nat × α}

/-! ## What is left -/

/-- What is left of a queue is handed out in order, each item with its position. -/
theorem take_eq (items : List α) (claims n : Nat) (h : n = items.length - claims) :
    (⟨items, claims⟩ : Queue α).take n =
      ((items.drop claims).zipIdx claims).map fun (item, i) ↦ (i, item) := by
  induction n generalizing claims with
  | zero =>
    rw [List.drop_eq_nil_of_le (by omega), List.zipIdx_nil]
    rfl
  | succ n ih =>
    have hlt : claims < items.length := by omega
    have hrest := ih (claims + 1) (by omega)
    rw [take, List.drop_eq_getElem_cons hlt, List.zipIdx_cons, List.map_cons, ← hrest]
    simp [next, List.getElem?_eq_getElem hlt]

/-- A queue has as many items as the list that it is made of. -/
theorem total_ofList (items : List α) : (ofList items).total = items.length := rfl

/-- A queue hands out all its items in order. -/
theorem waiting_ofList (items : List α) :
    (ofList items).waiting = items.zipIdx.map fun (item, i) ↦ (i, item) := by
  have h := take_eq items 0 items.length (by omega)
  simpa [waiting, ofList, remaining, total] using h

/-- Each item is handed out with its position. -/
theorem getElem?_waiting_ofList (items : List α) (i : Nat) :
    (ofList items).waiting[i]? = items[i]?.map (i, ·) := by
  rw [waiting_ofList, List.getElem?_map, List.getElem?_zipIdx, Option.map_map]
  cases items[i]? with
  | none => rfl
  | some item => simp

/-- As many items are handed out as there are. -/
theorem length_waiting_ofList (items : List α) : (ofList items).waiting.length = items.length := by
  rw [waiting_ofList, List.length_map, List.length_zipIdx]

/-- The positions are handed out in order. -/
theorem positions_waiting_ofList (items : List α) :
    (ofList items).waiting.map (·.1) = List.range items.length := by
  have hpositions : (ofList items).waiting.map (·.1) = items.zipIdx.map (·.2) := by
    rw [waiting_ofList, List.map_map]
    rfl
  rw [hpositions, List.zipIdx_map_snd, List.range_eq_range']

/-- No position is handed out twice. -/
theorem nodup_waiting_ofList (items : List α) : ((ofList items).waiting.map (·.1)).Nodup := by
  rw [positions_waiting_ofList]
  exact List.nodup_range

/-- A claim gets an item while there are some left. -/
theorem next_eq_none_iff : q.next.1 = none ↔ q.remaining = 0 := by
  simp only [next, remaining, total, Option.map_eq_none_iff, List.getElem?_eq_none_iff]
  omega

/-- What is claimed next is handed out first. -/
theorem waiting_of_next (h : q.next.1 = some item) :
    q.waiting = item :: q.next.2.waiting ∧ q.remaining = q.next.2.remaining + 1 ∧
      item.1 = q.claims := by
  have hnext : q.next = (some item, q.next.2) := Prod.ext h rfl
  have hremaining : q.remaining = q.next.2.remaining + 1 := by
    have hsome : q.remaining ≠ 0 := fun hzero ↦ by simp [next_eq_none_iff.mpr hzero] at h
    simp only [remaining, total, next] at hsome ⊢
    omega
  refine ⟨?_, hremaining, ?_⟩
  · rw [waiting, hremaining, take, hnext]
    rfl
  · simp only [next, Option.map_eq_some_iff] at h
    obtain ⟨_, -, rfl⟩ := h
    rfl

/-- Nothing is handed out any more behind a claim that gets nothing. -/
theorem waiting_of_next_eq_none (h : q.next.1 = none) :
    q.waiting = [] ∧ q.next.2.waiting = [] := by
  have hzero := next_eq_none_iff.mp h
  have hzero' : q.next.2.remaining = 0 := by
    simp only [remaining, total, next] at hzero ⊢
    omega
  exact ⟨by rw [waiting, hzero]; rfl, by rw [waiting, hzero']; rfl⟩

/-! ## Claims of workers -/

/-- What workers get that claim one after the other, and the state behind the last claim. -/
def serve {σ β ω : Type} (claim : σ → β × σ) : σ → List ω → List (ω × β) × σ
  | s, [] => ([], s)
  | s, worker :: calls =>
    let (answer, s) := claim s
    let (answers, s) := serve claim s calls
    ((worker, answer) :: answers, s)

section

variable {σ β ω : Type} {claim : σ → β × σ}

/-- Later claims change nothing about the answers to earlier ones. -/
theorem serve_take (s : σ) (calls : List ω) (n : Nat) :
    (serve claim s (calls.take n)).1 = (serve claim s calls).1.take n := by
  induction calls generalizing s n with
  | nil => simp [serve]
  | cons worker calls ih =>
    cases n with
    | zero => rfl
    | succ n => simp only [List.take_succ_cons, serve, ih]

end

variable {ω : Type}

/-- The items that answers give to workers, in order. -/
def claimed (answers : List (ω × Option (Nat × α))) : List (Nat × α) := answers.filterMap (·.2)

/-- The positions of the items that answers give to no worker. -/
def unclaimed (items : List α) (answers : List (ω × Option (Nat × α))) : List Nat :=
  (List.range items.length).filter (· ∉ (claimed answers).map (·.1))

/-- What an answer holds depends on the number of claims before it only. -/
theorem serve_next (q : Queue α) (calls : List ω) : serve next q calls =
    ((calls.zipIdx q.claims).map fun (worker, i) ↦ (worker, q.items[i]?.map (i, ·)),
      { q with claims := q.claims + calls.length }) := by
  induction calls generalizing q with
  | nil => rfl
  | cons worker calls ih =>
    simp only [serve, next, ih, List.zipIdx_cons, List.map_cons, List.length_cons]
    rw [Nat.add_right_comm, Nat.add_assoc]

/-- What is left is claimed in order, as far as there are claims. -/
theorem claimed_serve (q : Queue α) (calls : List ω) :
    claimed (serve next q calls).1 = q.waiting.take calls.length := by
  induction calls generalizing q with
  | nil => rfl
  | cons worker calls ih =>
    cases hnext : q.next.1 with
    | none =>
      obtain ⟨hnone, hnone'⟩ := waiting_of_next_eq_none hnext
      have hrest := ih q.next.2
      rw [hnone', List.take_nil] at hrest
      rw [hnone, List.take_nil]
      simpa [serve, claimed, hnext] using hrest
    | some item =>
      obtain ⟨hwaiting, -⟩ := waiting_of_next hnext
      rw [hwaiting, List.length_cons, List.take_succ_cons, ← ih]
      simp [serve, claimed, hnext]

/-- What is not among the first elements of a list without duplicates is behind them. -/
theorem filter_not_mem_take {positions : List Nat} (h : positions.Nodup) (n : Nat) :
    positions.filter (· ∉ positions.take n) = positions.drop n := by
  have htaken : (positions.take n).filter (· ∉ positions.take n) = [] :=
    List.filter_eq_nil_iff.mpr fun i hi ↦ by simpa using hi
  have hleft : (positions.drop n).filter (· ∉ positions.take n) = positions.drop n :=
    List.filter_eq_self.mpr fun i hi ↦
      decide_eq_true fun htake ↦ List.disjoint_take_drop h (Nat.le_refl n) htake hi
  calc positions.filter (· ∉ positions.take n)
      = (positions.take n ++ positions.drop n).filter (· ∉ positions.take n) := by
        rw [List.take_append_drop]
    _ = positions.drop n := by rw [List.filter_append, htaken, hleft, List.nil_append]

/-- The positions that the first claims leave are those behind as many items. -/
theorem unclaimed_serve (items : List α) (calls : List ω) :
    unclaimed items (serve next (ofList items) calls).1 =
      (List.range items.length).drop calls.length := by
  have hpositions : (claimed (serve next (ofList items) calls).1).map (·.1) =
      (List.range items.length).take calls.length := by
    rw [claimed_serve, List.map_take, positions_waiting_ofList]
  rw [unclaimed, hpositions, filter_not_mem_take List.nodup_range]

/-- What becomes of claims on a queue of the given items, where `run` is what workers get that claim
one after the other. Each claim is answered to the worker that made it; the items are handed out in
order, and each of them by one claim where there are enough; claims beyond the last item get none.
What is said to be left behind any number of claims is what they have not handed out. -/
structure HandsOut {σ : Type} (items : List α)
    (run : List ω → List (ω × Option (Nat × α)) × σ) (remaining : σ → Nat) (calls : List ω) :
    Prop where
  answered : (run calls).1.map (·.1) = calls
  inOrder : claimed (run calls).1 =
    (items.zipIdx.map fun (item, i) ↦ (i, item)).take calls.length
  each : items.length ≤ calls.length → ∀ (i : Nat) (item : α), items[i]? = some item →
    ∃! n : Nat, ∃ worker, (run calls).1[n]? = some (worker, some (i, item))
  once : ∀ {m n : Nat} {worker worker' : ω} {i : Nat} {item item' : α},
    (run calls).1[m]? = some (worker, some (i, item)) →
      (run calls).1[n]? = some (worker', some (i, item')) → m = n
  exhausted : ∀ n ≥ items.length, ∀ answer, (run calls).1[n]? = some answer → answer.2 = none
  left : ∀ n ≤ calls.length, remaining (run (calls.take n)).2 =
    (unclaimed items ((run calls).1.take n)).length

/-- Runs that answer the same and leave as much cannot be told apart. -/
theorem HandsOut.congr {σ τ : Type} {items : List α}
    {run : List ω → List (ω × Option (Nat × α)) × σ} {remaining : σ → Nat}
    {run' : List ω → List (ω × Option (Nat × α)) × τ} {remaining' : τ → Nat} {calls : List ω}
    (h : HandsOut items run remaining calls)
    (hsame : ∀ n, (run (calls.take n)).1 = (run' (calls.take n)).1 ∧
      remaining (run (calls.take n)).2 = remaining' (run' (calls.take n)).2) :
    HandsOut items run' remaining' calls := by
  have hanswers : (run calls).1 = (run' calls).1 := by
    simpa using (hsame calls.length).1
  exact
    { answered := hanswers ▸ h.answered
      inOrder := hanswers ▸ h.inOrder
      each := hanswers ▸ h.each
      once := hanswers ▸ h.once
      exhausted := hanswers ▸ h.exhausted
      left := fun n hn ↦ by rw [← (hsame n).2, ← hanswers, h.left n hn] }

/-- A claim that follows `n` others gets the item at position `n`. -/
theorem getElem?_serve (items : List α) (calls : List ω) (n : Nat) :
    (serve next (ofList items) calls).1[n]? =
      calls[n]?.map fun worker ↦ (worker, items[n]?.map (n, ·)) := by
  rw [serve_next, List.getElem?_map, List.getElem?_zipIdx, Option.map_map]
  cases calls[n]? with
  | none => rfl
  | some worker => simp [ofList]

private theorem position_eq {items : List α} {calls : List ω} {n i : Nat} {worker : ω} {item : α}
    (h : (serve next (ofList items) calls).1[n]? = some (worker, some (i, item))) : i = n := by
  rw [getElem?_serve] at h
  obtain ⟨_, -, hanswer⟩ := Option.map_eq_some_iff.mp h
  obtain ⟨_, -, hitem⟩ := Option.map_eq_some_iff.mp (Prod.mk.inj hanswer).2
  exact (Prod.mk.inj hitem).1.symm

/-- However many claims there are, a queue hands out its items. -/
theorem handsOut_serve (items : List α) (calls : List ω) :
    HandsOut items (serve next (ofList items)) remaining calls where
  answered := by
    rw [serve_next, List.map_map]
    exact List.zipIdx_map_fst 0 calls
  inOrder := by rw [claimed_serve, waiting_ofList]
  each := by
    intro hlength i item hitem
    obtain ⟨hlt, -⟩ := List.getElem?_eq_some_iff.mp hitem
    have hcall : calls[i]? = some calls[i] := List.getElem?_eq_getElem (by omega)
    refine ⟨i, ⟨calls[i], ?_⟩, fun n ⟨worker, hanswer⟩ ↦ (position_eq hanswer).symm⟩
    rw [getElem?_serve, hcall, hitem]
    rfl
  once := fun hfirst hsecond ↦ (position_eq hfirst).symm.trans (position_eq hsecond)
  exhausted := by
    intro n hn answer hanswer
    rw [getElem?_serve, List.getElem?_eq_none hn] at hanswer
    obtain ⟨_, -, rfl⟩ := Option.map_eq_some_iff.mp hanswer
    rfl
  left := by
    intro n hn
    have hcount : (calls.take n).length = n := List.length_take_of_le hn
    rw [← serve_take, unclaimed_serve, List.length_drop, List.length_range, serve_next, hcount]
    simp [remaining, total, ofList]

end Queue

/-! ## Counters of 64 bits -/

/-- A queue that counts the claims on it by a word of 64 bits. -/
structure WordQueue (α : Type) where
  items : List α
  claims : UInt64

namespace WordQueue

variable {α ω : Type}

/-- A queue on which no claim has been made. -/
def ofList (items : List α) : WordQueue α := ⟨items, 0⟩

/-- Claim the next item and its position; behind the greatest word the counter starts again. -/
def next (q : WordQueue α) : Option (Nat × α) × WordQueue α :=
  (q.items[q.claims.toNat]?.map (q.claims.toNat, ·), { q with claims := q.claims + 1 })

/-- The number of items not claimed yet. -/
def remaining (q : WordQueue α) : Nat := q.items.length - q.claims.toNat

/-- The queue with a number for its counter. -/
def unbounded (q : WordQueue α) : Queue α := ⟨q.items, q.claims.toNat⟩

private theorem remaining_unbounded (q : WordQueue α) : q.unbounded.remaining = q.remaining := rfl

private theorem unbounded_ofList (items : List α) : (ofList items).unbounded = .ofList items := rfl

/-- A word counts a claim as a number does, unless it is the greatest one. -/
theorem next_unbounded {q : WordQueue α} (h : q.claims.toNat + 1 < 2 ^ 64) :
    q.unbounded.next = (q.next.1, q.next.2.unbounded) := by
  have hcount : (q.claims + 1).toNat = q.claims.toNat + 1 := by
    rw [UInt64.toNat_add]
    exact Nat.mod_eq_of_lt h
  simp only [Queue.next, next, unbounded, hcount]

/-- As long as its counter does not start again, a queue with a word for it answers like one with a
number. -/
theorem serve_unbounded {q : WordQueue α} {calls : List ω}
    (h : q.claims.toNat + calls.length < 2 ^ 64) :
    Queue.serve Queue.next q.unbounded calls =
      ((Queue.serve next q calls).1, (Queue.serve next q calls).2.unbounded) := by
  induction calls generalizing q with
  | nil => rfl
  | cons worker calls ih =>
    rw [List.length_cons] at h
    have hnext := next_unbounded (q := q) (by omega)
    have hcount : q.next.2.claims.toNat = q.claims.toNat + 1 :=
      (congrArg (·.2.claims) hnext).symm
    simp only [Queue.serve, hnext, ih (q := q.next.2) (by omega)]

private theorem serve_claims (q : WordQueue α) (calls : List ω) :
    (Queue.serve next q calls).2 = { q with claims := q.claims + UInt64.ofNat calls.length } := by
  induction calls generalizing q with
  | nil => simp [Queue.serve]
  | cons worker calls ih =>
    simp only [Queue.serve, ih, next, List.length_cons, UInt64.ofNat_add]
    rw [UInt64.add_assoc, UInt64.add_comm 1]
    rfl

/-- Behind `2 ^ 64` claims the counter is where it was before them, and the items are handed out
once more. -/
theorem serve_of_length_eq {calls : List ω} (h : calls.length = 2 ^ 64) (q : WordQueue α) :
    (Queue.serve next q calls).2 = q := by
  have hzero : UInt64.ofNat (2 ^ 64) = 0 := rfl
  rw [serve_claims, h, hzero, UInt64.add_zero]

end WordQueue

/-- Fewer than `2 ^ 64` claims, by however many workers and in whatever order, hand out the items of
a queue one by one, and a counter of 64 bits makes no difference to them. -/
theorem handsOut_claims {α ω : Type} (items : List α) (calls : List ω)
    (h : calls.length < 2 ^ 64) :
    Queue.HandsOut items (Queue.serve Queue.next (.ofList items)) Queue.remaining calls ∧
      Queue.HandsOut items (Queue.serve WordQueue.next (.ofList items)) WordQueue.remaining
        calls := by
  have hqueue := Queue.handsOut_serve items calls
  refine ⟨hqueue, hqueue.congr fun n ↦ ?_⟩
  have hcount : (WordQueue.ofList items).claims.toNat + (calls.take n).length < 2 ^ 64 := by
    have hzero : (WordQueue.ofList items).claims.toNat = 0 := rfl
    rw [hzero, List.length_take]
    omega
  rw [← WordQueue.unbounded_ofList, WordQueue.serve_unbounded hcount]
  exact ⟨rfl, WordQueue.remaining_unbounded _⟩

/-- Two workers share two items, and the first one comes back for another. -/
theorem handsOut_claims_shared :
    [1, 2, 1].length < 2 ^ 64 ∧
    Queue.HandsOut ["a", "b"] (Queue.serve Queue.next (.ofList ["a", "b"])) Queue.remaining
      [1, 2, 1] ∧
    Queue.HandsOut ["a", "b"] (Queue.serve WordQueue.next (.ofList ["a", "b"]))
      WordQueue.remaining [1, 2, 1] ∧
    (Queue.serve WordQueue.next (.ofList ["a", "b"]) [1, 2, 1]).1 =
      [(1, some (0, "a")), (2, some (1, "b")), (1, none)] := by
  obtain ⟨hqueue, hword⟩ := handsOut_claims ["a", "b"] [1, 2, 1] (by decide)
  exact ⟨by decide, hqueue, hword, rfl⟩

end Harvest

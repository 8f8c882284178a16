import Harvest.Transport.Retry
import Mathlib.Data.List.Range

/-!
# Retries stop at the first final outcome

A call with retries is compared with the outcomes that calling again and again would have: it ends
with the first of them that another attempt cannot mend, or gives up when all attempts are used.
Between two calls it waits, each time as long as the policy says.
Design: `SPEC_FULL.md:114–118,182–183`.
-/

namespace Harvest.Transport

/-! ## Delays -/

namespace Policy

/-- No delay is longer than the longest. -/
theorem delay_le_longest (p : Policy) (retry : Nat) : p.delay retry ≤ p.longest := by
  rw [Duration.le_iff, delay, Duration.nanos_min]
  exact Nat.min_le_right _ _

/-- Factors do not fall where the multiplier is positive. -/
theorem factor_mono {p : Policy} (hm : 1 ≤ p.multiplier) {a b : Nat} (hab : a ≤ b) :
    p.factor a ≤ p.factor b := by
  have hexp : min a 32 ≤ min b 32 := by omega
  have hpow := Nat.pow_le_pow_right hm hexp
  unfold factor
  omega

/-- Delays do not fall where the multiplier is positive. -/
theorem delay_mono {p : Policy} (hm : 1 ≤ p.multiplier) {a b : Nat} (hab : a ≤ b) :
    p.delay a ≤ p.delay b := by
  have hfactor := factor_mono hm (Nat.sub_le_sub_right hab 1)
  have hscaled := Nat.mul_le_mul_left p.initial.nanos hfactor
  rw [Duration.le_iff, delay, delay, Duration.nanos_min, Duration.nanos_min]
  simp only [Duration.scale]
  omega

end Policy

/-! ## Outcomes -/

variable {σ : Type}

/-- Whether an outcome is a failure that another attempt may mend. -/
def mayPass : Outcome → Bool
  | .ok response => 500 ≤ response.status
  | .error e => e.isRetryable

/-- The failure that an outcome stands for where it is not accepted. -/
def failure : Outcome → Error
  | .ok response => .status response.status response.reason
  | .error e => e

/-- An outcome that may pass is a failure worth another attempt. -/
theorem settled_of_mayPass {o : Outcome} (h : mayPass o = true) :
    settled o = .error (failure o) ∧ (failure o).isRetryable = true := by
  cases o with
  | ok response =>
    have hstatus : 500 ≤ response.status := by simpa [mayPass] using h
    simp [settled, failure, Error.isRetryable, hstatus]
  | error e => exact ⟨rfl, h⟩

/-- An answer that is final is accepted, and its status is below 500. -/
theorem settled_ok_of_final {response : Http.Response}
    (h : mayPass (.ok response) = false) :
    settled (.ok response) = .ok response ∧ response.status < 500 := by
  have hstatus : response.status < 500 := by simpa [mayPass] using h
  simp [settled, Nat.not_le.mpr hstatus, hstatus]

/-! ## Calls one after another -/

/-- The state after the first `n` calls. -/
def stateAfter (call : Act σ Outcome) (s : σ) : Nat → σ
  | 0 => s
  | n + 1 => (call.run (stateAfter call s n)).state

/-- The result of call `n`, counted from 0, where nothing comes between the calls. -/
def nthCall (call : Act σ Outcome) (s : σ) (n : Nat) : Act.Result σ Outcome :=
  call.run (stateAfter call s n)

/-- What waiting for a retry leaves in the trace. -/
def pauseTrace (path : String) (policy : Policy) (retry : Nat) (e : Error) : List Event :=
  [.log ⟨.warn, .retry, retryText path policy retry e⟩, .sleep (policy.delay retry)]

/-- What the first `n` calls leave in the trace where a pause comes after each of them. -/
def rounds (call : Act σ Outcome) (path : String) (policy : Policy) (s : σ) (n : Nat) :
    List Event :=
  (List.range n).flatMap fun i ↦ (nthCall call s i).trace ++
    pauseTrace path policy (i + 1) (failure (nthCall call s i).value)

/-- What is reported of an outcome that is final. -/
def closing (path : String) : Outcome → List Event
  | .ok _ => []
  | .error e => [.log ⟨.debug, .retry, s!"{path}: not retrying: {e.message}"⟩]

/-- What is reported when no retries are left. -/
def surrender (path : String) (e : Error) : List Event :=
  [.log ⟨.error, .retry, s!"{path}: failed permanently: {e.message}"⟩]

variable {call : Act σ Outcome} {path : String} {policy : Policy} {s : σ} {left retry : Nat}

/-- One attempt with a final outcome ends the loop with that outcome. -/
theorem attempt_of_final (h : mayPass (call.run s).value = false) :
    (attempt call path policy left retry).run s =
      ⟨(call.run s).value, (call.run s).trace ++ closing path (call.run s).value,
        (call.run s).state⟩ := by
  cases hv : (call.run s).value with
  | ok response =>
    have hsettled := (settled_ok_of_final (hv ▸ h)).1
    cases left <;> simp [attempt, Act.run_bind, hv, hsettled, closing]
  | error e =>
    have hfinal : e.isRetryable = false := by rw [hv] at h; exact h
    cases left <;> simp [attempt, Act.run_bind, hv, settled, hfinal, giveUp, closing]

/-- A last attempt that fails ends the loop: all attempts are used. -/
theorem attempt_zero_of_mayPass (h : mayPass (call.run s).value = true) :
    (attempt call path policy 0 retry).run s =
      ⟨.error (.exhausted (retry + 1) (failure (call.run s).value)),
        (call.run s).trace ++ surrender path (failure (call.run s).value),
        (call.run s).state⟩ := by
  obtain ⟨hsettled, hretry⟩ := settled_of_mayPass h
  simp [attempt, Act.run_bind, hsettled, hretry, exhaust, surrender]

/-- An attempt that fails and is not the last one is followed by a pause and the other attempts. -/
theorem attempt_succ_of_mayPass (h : mayPass (call.run s).value = true) :
    (attempt call path policy (left + 1) retry).run s =
      let rest := (attempt call path policy left (retry + 1)).run (call.run s).state
      ⟨rest.value,
        (call.run s).trace ++
          pauseTrace path policy (retry + 1) (failure (call.run s).value) ++ rest.trace,
        rest.state⟩ := by
  obtain ⟨hsettled, hretry⟩ := settled_of_mayPass h
  simp [attempt, Act.run_bind, hsettled, hretry, pause, pauseTrace]

/-- The loop goes through as many rounds as there are failures that may pass. -/
theorem attempt_rounds {n : Nat} (hn : n ≤ left)
    (h : ∀ i < n, mayPass (nthCall call s i).value = true) :
    (attempt call path policy left 0).run s =
      let rest := (attempt call path policy (left - n) n).run (stateAfter call s n)
      ⟨rest.value, rounds call path policy s n ++ rest.trace, rest.state⟩ := by
  induction n with
  | zero => simp [rounds, stateAfter]
  | succ n ih =>
    have hleft : left - n = left - (n + 1) + 1 := by omega
    have hlast := h n (Nat.lt_succ_self n)
    rw [ih (by omega) fun i hi ↦ h i (Nat.lt_succ_of_lt hi), hleft,
      attempt_succ_of_mayPass hlast]
    simp [rounds, List.range_succ, nthCall, stateAfter, List.append_assoc]

/-- An answer that the loop comes to has a status below 500. -/
theorem attempt_ok_status {response : Http.Response}
    (h : ((attempt call path policy left retry).run s).value = .ok response) :
    response.status < 500 := by
  induction left generalizing retry s with
  | zero =>
    cases hm : mayPass (call.run s).value with
    | true => simp [attempt_zero_of_mayPass hm] at h
    | false =>
      rw [attempt_of_final hm] at h
      simp only at h
      exact (settled_ok_of_final (h ▸ hm)).2
  | succ left ih =>
    cases hm : mayPass (call.run s).value with
    | true =>
      rw [attempt_succ_of_mayPass hm] at h
      exact ih h
    | false =>
      rw [attempt_of_final hm] at h
      simp only at h
      exact (settled_ok_of_final (h ▸ hm)).2

/-! ## Calls with retries -/

/-- What `n` calls do besides reporting, with a delay before each of them but the first. -/
def spacedCalls (call : Act σ Outcome) (policy : Policy) (s : σ) (n : Nat) : List Event :=
  (List.range n).flatMap fun i ↦
    (if i = 0 then [] else [.sleep (policy.delay i)]) ++ Event.effects (nthCall call s i).trace

/-- A result that `n` calls lead to, one after another from a state, with the delays of a policy
between them and nothing else but reports. -/
structure MadeCalls (call : Act σ Outcome) (policy : Policy) (s : σ) (n : Nat)
    (r : Act.Result σ Outcome) : Prop where
  state : r.state = stateAfter call s n
  effects : Event.effects r.trace = spacedCalls call policy s n

/-- Rounds and a last call are calls with delays between them. -/
theorem effects_rounds (call : Act σ Outcome) (path : String) (policy : Policy) (s : σ) (n : Nat) :
    Event.effects (rounds call path policy s n ++ (nthCall call s n).trace) =
      spacedCalls call policy s (n + 1) := by
  induction n with
  | zero => simp [rounds, spacedCalls]
  | succ n ih =>
    have hpause (e : Error) : Event.effects (pauseTrace path policy (n + 1) e) =
        [.sleep (policy.delay (n + 1))] := rfl
    have hrounds : rounds call path policy s (n + 1) =
        rounds call path policy s n ++ (nthCall call s n).trace ++
          pauseTrace path policy (n + 1) (failure (nthCall call s n).value) := by
      simp [rounds, List.range_succ]
    rw [hrounds, Event.effects_append, Event.effects_append, ih, hpause]
    simp [spacedCalls, List.range_succ]

private theorem effects_closing (path : String) (o : Outcome) :
    Event.effects (closing path o) = [] := by
  cases o <;> rfl

private theorem effects_surrender (path : String) (e : Error) :
    Event.effects (surrender path e) = [] := rfl

/-- Where the first calls may pass and call `k` is final, `k + 1` calls are made. -/
theorem withRetries_of_final {k : Nat} (hk : k ≤ policy.retries)
    (hpass : ∀ i < k, mayPass (nthCall call s i).value = true)
    (hfinal : mayPass (nthCall call s k).value = false) :
    MadeCalls call policy s (k + 1) ((withRetries call path policy).run s) ∧
      ((withRetries call path policy).run s).value = (nthCall call s k).value := by
  rw [withRetries, attempt_rounds hk hpass, attempt_of_final hfinal]
  refine ⟨⟨rfl, ?_⟩, rfl⟩
  simp only [← List.append_assoc]
  rw [Event.effects_append, effects_closing, List.append_nil]
  exact effects_rounds call path policy s k

/-- Where all calls may pass, every attempt that the policy allows is made. -/
theorem withRetries_of_mayPass
    (hpass : ∀ i ≤ policy.retries, mayPass (nthCall call s i).value = true) :
    MadeCalls call policy s (policy.retries + 1) ((withRetries call path policy).run s) ∧
      ((withRetries call path policy).run s).value =
        .error (.exhausted (policy.retries + 1)
          (failure (nthCall call s policy.retries).value)) := by
  have hrounds : ∀ i < policy.retries, mayPass (nthCall call s i).value = true :=
    fun i hi ↦ hpass i (Nat.le_of_lt hi)
  rw [withRetries, attempt_rounds (Nat.le_refl _) hrounds, Nat.sub_self,
    attempt_zero_of_mayPass (hpass _ (Nat.le_refl _))]
  refine ⟨⟨rfl, ?_⟩, rfl⟩
  simp only [← List.append_assoc]
  rw [Event.effects_append, effects_surrender, List.append_nil]
  exact effects_rounds call path policy s policy.retries

/-- A call with retries makes calls until the first outcome that another attempt cannot mend, and
comes to that outcome; where there is none among the attempts that the policy allows, it makes all
of them and gives up with the last failure. Delays are within the bound of the policy and do not
fall, and no answer that is accepted has a status of 500 or above. -/
theorem withRetries_first_final (call : Act σ Outcome) (path : String) (policy : Policy) (s : σ) :
    let outcome := fun n ↦ (nthCall call s n).value
    let r := (withRetries call path policy).run s
    (∀ k ≤ policy.retries, (∀ i < k, mayPass (outcome i) = true) → mayPass (outcome k) = false →
      MadeCalls call policy s (k + 1) r ∧ r.value = outcome k) ∧
    ((∀ i ≤ policy.retries, mayPass (outcome i) = true) →
      MadeCalls call policy s (policy.retries + 1) r ∧
        r.value = .error (.exhausted (policy.retries + 1) (failure (outcome policy.retries)))) ∧
    (∀ n, policy.delay n ≤ policy.longest) ∧
    (1 ≤ policy.multiplier → ∀ m n, m ≤ n → policy.delay m ≤ policy.delay n) ∧
    ∀ response, r.value = .ok response → response.status < 500 := by
  refine ⟨?_, ?_, policy.delay_le_longest, ?_, ?_⟩
  · intro k hk hpass hfinal
    exact withRetries_of_final hk hpass hfinal
  · intro hpass
    exact withRetries_of_mayPass hpass
  · intro hm m n hmn
    exact Policy.delay_mono hm hmn
  · intro response h
    exact attempt_ok_status h

/-- A call that replays outcomes. -/
def replay : Act (List Outcome) Outcome := Act.step fun
  | [] => (.error (.request "" false), [])
  | o :: rest => (o, rest)

/-- Two failures that may pass, then an answer: three calls, with the first two delays between
them. -/
theorem withRetries_first_final_third :
    let answer (status : Nat) : Outcome := .ok ⟨status, "", none, []⟩
    let r := (withRetries replay "/" .standard).run
      [answer 503, .error (.io ""), answer 404, answer 200]
    r.value = answer 404 ∧ r.state = [answer 200] ∧
      Event.delays r.trace = [.ofSecs 2, .ofSecs 4] := by
  have h := (withRetries_first_final replay "/" .standard
    [.ok ⟨503, "", none, []⟩, .error (.io ""), .ok ⟨404, "", none, []⟩,
      .ok ⟨200, "", none, []⟩]).1 2 (by decide) (by decide) (by decide)
  exact ⟨h.2, h.1.state, rfl⟩

end Harvest.Transport

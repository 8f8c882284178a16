import Harvest.Arithmetic
import Harvest.Transport.Call

/-!
# Retries

A call whose failure may pass is made again after a delay, as often as a policy allows. An answer
with status 500 or above counts as such a failure.
Design: `SPEC_FULL.md:110–118`.
-/

namespace Harvest.Transport

/-- How often and after what delays a call is made again. Design: `SPEC_FULL.md:111–118`. -/
structure Policy where
  initial : Duration
  longest : Duration
  multiplier : Nat
  retries : Nat
deriving DecidableEq, Repr

namespace Policy

/-- Delays from 2 seconds on, doubled up to 10 seconds, before three retries.
Design: `SPEC_FULL.md:222–223`. -/
def standard : Policy := ⟨.ofSecs 2, .ofSecs 10, 2, 3⟩

instance : Inhabited Policy := ⟨standard⟩

/-- The greatest factor that a delay is multiplied by. -/
def greatestFactor : Nat := 2 ^ 32 - 1

/-- A power of the multiplier, at most the greatest factor. Beyond 32 factors the power of a number
is 0, 1 or above that bound already, so no more of them are multiplied. -/
def factor (p : Policy) (exponent : Nat) : Nat :=
  min (p.multiplier ^ min exponent 32) greatestFactor

/-- The delay before the given retry, counted from 1. Design: `SPEC_FULL.md:115–117`. -/
def delay (p : Policy) (retry : Nat) : Duration :=
  min (p.initial.scale (p.factor (retry - 1))) p.longest

end Policy

variable {σ : Type}

/-- An outcome in which an answer with status 500 or above is a failure.
Design: `SPEC_FULL.md:114–115`. -/
def settled : Outcome → Outcome
  | .ok response =>
    if 500 ≤ response.status then .error (.status response.status response.reason)
    else .ok response
  | .error e => .error e

/-- What is reported of a failure that is followed by another attempt. -/
def retryText (path : String) (policy : Policy) (retry : Nat) (e : Error) : String :=
  s!"{path}: attempt {retry}/{policy.retries} failed: {e.message}, " ++
    s!"retrying in {(policy.delay retry).text}"

/-- Give up on a failure that no other attempt can mend. Design: `SPEC_FULL.md:115`. -/
def giveUp (path : String) (e : Error) : Act σ Outcome := do
  Act.report .debug .retry s!"{path}: not retrying: {e.message}"
  return .error e

/-- Give up on a failure that the given number of attempts ended in.
Design: `SPEC_FULL.md:117–118,202`. -/
def exhaust (path : String) (attempts : Nat) (e : Error) : Act σ Outcome := do
  Act.report .error .retry s!"{path}: failed permanently: {e.message}"
  return .error (.exhausted attempts e)

/-- Wait for the next attempt. Design: `SPEC_FULL.md:201`. -/
def pause (path : String) (policy : Policy) (retry : Nat) (e : Error) : Act σ Unit := do
  Act.report .warn .retry (retryText path policy retry e)
  Act.emit (.sleep (policy.delay retry))

/-- Make a call, and once more for each of the retries that are left, as long as it fails and may
succeed. The last number counts the retries made so far. Design: `SPEC_FULL.md:114–118`. -/
def attempt (call : Act σ Outcome) (path : String) (policy : Policy) : Nat → Nat → Act σ Outcome
  | 0, retry => do
    match settled (← call) with
    | .ok response => return .ok response
    | .error e => if e.isRetryable then exhaust path (retry + 1) e else giveUp path e
  | left + 1, retry => do
    match settled (← call) with
    | .ok response => return .ok response
    | .error e =>
      if e.isRetryable then
        pause path policy (retry + 1) e
        attempt call path policy left (retry + 1)
      else giveUp path e

/-- Make a call of any kind with retries. Design: `SPEC_FULL.md:111–118`. -/
def withRetries (call : Act σ Outcome) (path : String) (policy : Policy) : Act σ Outcome :=
  attempt call path policy policy.retries 0

/-- Make an authenticated call with retries. Design: `SPEC_FULL.md:114–118`. -/
def callWithRetry (peer : Peer σ) (credentials : Credentials) (policy : Policy) (url : Url)
    (accept : Http.MediaType) : Act (World σ) Outcome :=
  withRetries (call peer credentials url accept) (String.ofList url.path.chars) policy

end Harvest.Transport

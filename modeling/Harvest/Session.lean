import Harvest.Service.Basic

/-!
# Sessions

A session asks a service for one operation after another, over one kept token. Besides the
operations of the service there are plain calls and calls with retries to any URL, and requests to
hand out, drop or keep a token.
-/

namespace Harvest

namespace Session

/-- What a session can be asked for. -/
inductive Operation where
  | check
  | count
  | entities
  | metadata
  | probe
  | page (page : Plan.Page)
  | call (url : Url) (accept : Http.MediaType)
  | callWithRetry (url : Url) (accept : Http.MediaType) (policy : Transport.Policy)
  | token (refresh : Bool)
  | invalidate
  | store (token : String)
deriving DecidableEq, Repr

/-- What comes of an operation. -/
inductive Result where
  | response (answer : Service.Answer Http.Response)
  | count (answer : Service.Answer Nat)
  | names (answer : Service.Answer (List String))
  | outcome (outcome : Transport.Outcome)
  | token (outcome : Except Token.Error String)
  | done

end Session

namespace Service

open Session (Operation Result)

variable {σ : Type}

/-- Perform an operation. -/
def perform (s : Service σ) : Operation → Act (World σ) Result
  | .check => do return .response (← s.checkConnection)
  | .count => do return .count (← s.recordCount)
  | .entities => do return .names (← s.listEntities)
  | .metadata => do return .response (← s.metadata)
  | .probe => do return .response (← s.probe)
  | .page page => do return .response (← s.fetchPage page)
  | .call url accept => do return .outcome (← Transport.call s.peer s.credentials url accept)
  | .callWithRetry url accept policy => do
    return .outcome (← Transport.callWithRetry s.peer s.credentials policy url accept)
  | .token refresh => do return .token (← Token.get s.peer refresh)
  | .invalidate => do
    Token.invalidate
    return .done
  | .store token => do
    Token.store token
    return .done

/-- Perform operations one after another. -/
def session (s : Service σ) : List Operation → Act (World σ) (List Result)
  | [] => pure []
  | operation :: operations => do
    let result ← s.perform operation
    return result :: (← s.session operations)

end Service

end Harvest

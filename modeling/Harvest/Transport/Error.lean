import Harvest.Token.Error
import Harvest.Url.Parse

/-!
# Transport errors

Why a request got no answer that can be used.
Design: `SPEC_FULL.md:163–168`.
-/

namespace Harvest.Transport

/-- Why a request failed. Design: `SPEC_FULL.md:163–164`. -/
inductive Error where
  | request (detail : String) (retryable : Bool)
  | invalidUrl (url reason : String)
  | status (code : Nat) (detail : String)
  | auth (cause : Token.Error)
  | exhausted (attempts : Nat) (last : Error)
  | io (detail : String)
deriving DecidableEq, Repr, Inhabited

namespace Error

/-- Whether another attempt may succeed. Design: `SPEC_FULL.md:114–115,168`. -/
def isRetryable : Error → Bool
  | request _ retryable => retryable
  | status code _ => 500 ≤ code
  | auth cause => cause.isTransient
  | io _ => true
  | invalidUrl _ _ => false
  | exhausted _ _ => false

/-- The wording of a transport error. -/
def message : Error → String
  | request detail _ => "request failed: " ++ detail
  | invalidUrl url reason => "invalid URL `" ++ url ++ "`: " ++ reason
  | status code detail => s!"HTTP {code}: {detail}"
  | auth cause => "authentication failed: " ++ cause.message
  | exhausted attempts last => s!"giving up after {attempts} attempts: " ++ last.message
  | io detail => "IO error: " ++ detail

end Error

/-- Read a URL; the error names the text that is none. -/
def parseUrl (text : String) : Except Error Url :=
  (Url.parse text).mapError fun e ↦ .invalidUrl text e.message

end Harvest.Transport

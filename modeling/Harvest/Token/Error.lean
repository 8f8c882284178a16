/-!
# Token errors

Why no access token could be obtained.
Design: `SPEC_FULL.md:165–167`.
-/

namespace Harvest.Token

/-- Why there is no token. Design: `SPEC_FULL.md:165–166`. -/
inductive Error where
  | missingInput (field : String)
  | unreachable (detail : String)
  | rejected (status : Nat) (detail : String)
  | malformed (detail : String)
deriving DecidableEq, Repr, Inhabited

namespace Error

/-- Whether another try may succeed: only where the endpoint was not reached.
Design: `SPEC_FULL.md:166–167`. -/
def isTransient : Error → Bool
  | unreachable _ => true
  | _ => false

/-- The wording of a token error. -/
def message : Error → String
  | missingInput field => "missing token input: " ++ field
  | unreachable detail => "token endpoint unreachable: " ++ detail
  | rejected status detail =>
    s!"token endpoint rejected the request (HTTP {status}): {detail}"
  | malformed detail => "malformed token response: " ++ detail

end Error

end Harvest.Token

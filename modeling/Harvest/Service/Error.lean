import Harvest.Plan.Layout
import Harvest.Transport.Error

/-!
# Service errors

Why an operation on a service failed.
Design: `SPEC_FULL.md:204–208,248–259`.
-/

namespace Harvest.Service

/-- Why an operation failed. -/
inductive Error where
  | transport (cause : Transport.Error)
  | unexpectedStatus (operation : String) (status : Nat) (detail : String)
  | invalidCredentials
  | notFound
  | invalidCount (text : String)
  | invalidEntityList (detail : String)
  | workerPool (detail : String)
  | plan (cause : Plan.Error)
  | io (detail : String)
deriving DecidableEq, Repr, Inhabited

/-- The wording of a service error. -/
def Error.message : Error → String
  | transport cause => cause.message
  | unexpectedStatus operation status detail =>
    s!"unexpected HTTP {status} {detail} from {operation}"
  | invalidCredentials => "invalid credentials (HTTP 401)"
  | notFound => "base URL not found (HTTP 404)"
  | invalidCount text => "invalid record count `" ++ text ++ "`"
  | invalidEntityList detail => "invalid entity set list: " ++ detail
  | workerPool detail => "failed to create worker pool: " ++ detail
  | plan cause => cause.message
  | io detail => "IO: " ++ detail

end Harvest.Service

import Harvest.Json.Parse

/-!
# Entity lists

The names of the entity sets in a service document: under `d`, or at the top.
Design: `SPEC_FULL.md:254–257`.
-/

namespace Harvest.Service

open Json (Value Reader)

/-- The texts of a list that holds only texts. -/
def texts : Value → Option (List String)
  | .array vs => vs.mapM Value.string?
  | _ => none

/-- The names of a list of entity sets: an object with one entry `EntitySets`, or a list that holds
just the names. -/
def entitySets : Value → Option (List String)
  | .array [v] => texts v
  | .object es => ((Value.object es).only? "EntitySets").bind texts
  | _ => none

/-- The names of a service document. Design: `SPEC_FULL.md:254–257`. -/
def entityNames (v : Value) : Option (List String) :=
  ((v.only? "d").bind entitySets).orElse fun _ ↦ entitySets v

/-- Read a service document. -/
def readDocument : Reader (List String) := do
  match entityNames (← Json.value Json.depthLimit) with
  | some names => return names
  | none => Reader.fail (.noVariant "ServiceDocument")

/-- Read the names from the body of an answer, or say what is wrong with it.
Design: `SPEC_FULL.md:254–257`. -/
def parseEntityList (body : Text.Bytes) : Except String (List String) :=
  (Json.readAll readDocument body).mapError (·.message body)

end Harvest.Service

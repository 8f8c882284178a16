import Harvest.Log
import Harvest.Plan.Split
import Harvest.Query
import Harvest.Transport.Error
import Harvest.Url.Edit

/-!
# Endpoints

The URLs of one entity of a service. The entity's name continues the path of the base URL, and the
fragments of the query become query options, in a fixed order and only where they are needed.
Design: `SPEC_FULL.md:234–246`.
-/

namespace Harvest

/-- The base URL of a service and what to read of it. Design: `SPEC_FULL.md:235`. -/
structure Endpoints where
  base : Url
  query : Query
deriving Repr

/-- A place of a service that requests go to. -/
inductive Endpoint where
  | tester
  | metadata
  | count
  | data (page : Plan.Page)
deriving DecidableEq, Repr

namespace Endpoints

/-- Escaped in the values of query options. Separators of options and of values are, a space is
never written as a plus sign, and the single quote is because web URLs escape it anyway.
Design: `SPEC_FULL.md:243–246`. -/
def valueSet : Url.EscapeSet :=
  Url.controlSet.add
    [' ', '"', '#', '%', '&', '\'', '+', '<', '=', '>', '[', '\\', ']', '^', '\x60', '\x7b', '|',
      '\x7d']

/-- Query options: names and values as they are meant. -/
abbrev Options := List (String × String)

/-- An option that is left out where it has no value. -/
def option (name : String) (value : Option String) : Options :=
  (value.map (name, ·)).toList

/-- The options of an endpoint. Design: `SPEC_FULL.md:236–242`. -/
def options (q : Query) : Endpoint → Options
  | .tester =>
    option "$filter" q.filter? ++ option "$select" q.select? ++ option "$expand" q.expand?
      ++ [("$top", "1")]
  | .metadata => []
  | .count => option "$filter" q.filter?
  | .data page =>
    option "$filter" q.filter? ++ option "$select" q.pageSelect? ++ option "$expand" q.expand?
      ++ option "$skip" (if page.skip = 0 then none else some (toString page.skip))
      ++ [("$top", toString page.top)]

/-- An option as it is written. -/
def optionChars (option : String × String) : Chars :=
  option.1.toList ++ '=' :: Url.escape valueSet option.2.toList

/-- Options as they are written, if there are any. -/
def queryChars (options : Options) : Option Chars :=
  if options = [] then none else some (Text.joinWith ['&'] (options.map optionChars))

/-- The segments that a name adds to a path: its parts between slashes, without empty ones. -/
def nameSegments (name : String) : List Chars :=
  (Text.splitAt '/' name.toList).filter (· ≠ [])

/-- The segments that an endpoint adds to the base path. Design: `SPEC_FULL.md:236–240`. -/
def segments (q : Query) : Endpoint → List Chars
  | .tester => nameSegments q.entity
  | .metadata =>
    let name := match q.associatedEntity? with
      | some other => q.entity ++ "," ++ other
      | none => q.entity
    nameSegments name ++ ["$metadata".toList]
  | .count => nameSegments q.entity ++ ["$count".toList]
  | .data _ => nameSegments q.entity

/-- The URL of an endpoint. Design: `SPEC_FULL.md:235–242`. -/
def url (e : Endpoints) (endpoint : Endpoint) : Url :=
  (e.base.withSegments (segments e.query endpoint)).withQuery
    (queryChars (options e.query endpoint))

/-- What an endpoint is called in reports. -/
def title : Endpoint → String
  | .tester => "Tester endpoint"
  | .metadata => "Metadata endpoint"
  | .count => "Count endpoint"
  | .data _ => "Data endpoint"

/-- What is reported when the URL of an endpoint is made. -/
def report (e : Endpoints) (endpoint : Endpoint) : Log.Line :=
  ⟨.debug, .endpoints, title endpoint ++ ": " ++ (e.url endpoint).text⟩

/-- The endpoints at a base URL, which has to have a hierarchical path. -/
def make (base : String) (query : Query) : Except Transport.Error Endpoints := do
  let url ← Transport.parseUrl base
  if url.isHierarchical then return ⟨url, query⟩
  else .error (.invalidUrl base "not a hierarchical URL")

end Endpoints

end Harvest

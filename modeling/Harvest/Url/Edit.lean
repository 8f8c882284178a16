import Harvest.Url.Parse

/-!
# Changing URLs

URLs next to a given one: the same place with another query, a path with segments added, and the
endpoint beside the one that a path ends in.
-/

namespace Harvest.Url

/-- A URL with the given query in place of its own. -/
def withQuery (u : Url) (query : Option Chars) : Url :=
  let set := if isSpecial u.scheme then specialQuerySet else querySet
  { u with query := query.map (escape set <| ·.filter (!isLineBreakOrTab ·)) }

/-- A path without the empty segment behind a final slash; a path that is one slash stays. -/
def dropTrailingSlash : List Chars → List Chars
  | [] => []
  | [segment] => [segment]
  | first :: rest => if rest.getLast? = some [] then first :: rest.dropLast else first :: rest

/-- Add one segment to a path. Dots add nothing, and neither do tabs and line breaks; dots that
stand among those are read as dots once they are gone. The only segment of an empty path is
replaced. -/
def pushSegment (scheme : Chars) (segments : List Chars) (segment : Chars) : List Chars :=
  if segment = ['.'] ∨ segment = ['.', '.'] then segments
  else
    let set := if isSpecial scheme then specialSegmentSet else segmentSet
    let before := if segments = [[]] then [] else segments
    let file := isFile scheme
    let after := enter file true before (escape set (segment.filter (!isLineBreakOrTab ·)))
    if file then dropEmpty after else after

/-- A URL without query, its path continued by segments. A path without hierarchy stays. -/
def withSegments (u : Url) (added : List Chars) : Url :=
  match u.path with
  | .plain _ => { u with query := none }
  | .segments segments =>
    { u with
      path := .segments (added.foldl (pushSegment u.scheme) (dropTrailingSlash segments))
      query := none }

/-- A URL with another path, which is read as it would be behind the authority, but that nothing in
it ends it. A path without hierarchy does not start with a slash. -/
def withPath (u : Url) (path : Chars) : Url :=
  let path := path.filter (!isLineBreakOrTab ·)
  match u.path with
  | .segments _ => { u with path := .segments (pathAfterAuthority u.scheme path) }
  | .plain _ =>
    match path with
    | '/' :: rest => { u with path := .plain ("%2F".toList ++ escape controlSet rest) }
    | path => { u with path := .plain (escape controlSet path) }

/-- The path of the identity provider beside the endpoint that has the given path: what is behind
the last slash is replaced. -/
def providerPath (path : Chars) : Chars :=
  if path.contains '/' then (path.reverse.dropWhile (· != '/')).reverse ++ "idp".toList
  else "/oauth/idp".toList

/-- The identity provider's endpoint beside a token endpoint, without query. -/
def identityProvider (u : Url) : Url := (u.withPath (providerPath u.path.chars)).withQuery none

end Harvest.Url

import Harvest.Url.Domain
import Harvest.Url.Ipv6

/-!
# Reading URLs

`parse` takes a text apart at its delimiters, from the left: scheme, authority, path, query and
fragment. Each part is brought into its normal form on its own.
-/

namespace Harvest.Url

open Text (splitWhere)

/-- Whether a character separates path segments: a slash, and a backslash in special schemes. -/
def isSlash (special : Bool) (c : Char) : Bool := c == '/' || (special && c == '\\')

/-- Whether a character ends the path. -/
def endsPath (c : Char) : Bool := c == '?' || c == '#'

/-- Whether a character ends the authority. -/
def endsAuthority (special : Bool) (c : Char) : Bool := isSlash special c || endsPath c

/-- Whether a character is dropped at the ends of a text. -/
def isPadding (c : Char) : Bool := c.toNat ≤ 0x20

/-- Whether a character is dropped everywhere. -/
def isLineBreakOrTab (c : Char) : Bool := c == '\t' || c == '\n' || c == '\r'

/-- The characters of a text that are read. -/
def strip (cs : Chars) : Chars :=
  ((cs.dropWhile isPadding).reverse.dropWhile isPadding).reverse.filter (!isLineBreakOrTab ·)

/-- Read the characters of a scheme up to its colon. -/
def schemeRest : Chars → Option (Chars × Chars)
  | [] => none
  | c :: cs =>
    if c = ':' then some ([], cs)
    else if c.isAlphanum || c == '+' || c == '-' || c == '.' then
      (schemeRest cs).map fun (scheme, rest) ↦ (c.toLower :: scheme, rest)
    else none

/-- Split a text behind its scheme, which starts with a letter. -/
def splitScheme : Chars → Option (Chars × Chars)
  | [] => none
  | c :: cs => if c.isAlpha then schemeRest (c :: cs) else none

/-! ## Paths -/

/-- A text with its ASCII capitals replaced by small letters. -/
def lowerAscii (cs : Chars) : Chars := cs.map Char.toLower

/-- Whether a segment stands for its own place. -/
def isSingleDot (segment : Chars) : Bool :=
  [['.'], "%2e".toList].contains (lowerAscii segment)

/-- Whether a segment stands for the place above. -/
def isDoubleDot (segment : Chars) : Bool :=
  [['.', '.'], ".%2e".toList, "%2e.".toList, "%2e%2e".toList].contains (lowerAscii segment)

/-- Whether a segment names a drive of a file system. -/
def isDrive : Chars → Bool
  | [letter, mark] => letter.isAlpha && (mark == ':' || mark == '|')
  | _ => false

/-- A path without its last segment; the drive of a file path stays. -/
def shorten (file : Bool) (segments : List Chars) : List Chars :=
  match segments with
  | [segment] => if file && isDrive segment then [segment] else []
  | _ => segments.dropLast

/-- A segment as it enters a path; a drive at the start of a file path gets a colon. -/
def normalSegment (file : Bool) (before : List Chars) (segment : Chars) : Chars :=
  if file && before.isEmpty && isDrive segment then segment.take 1 ++ [':'] else segment

/-- Add one segment to a path. A segment of dots at the end leaves an empty segment. -/
def enter (file last : Bool) (segments : List Chars) (segment : Chars) : List Chars :=
  let trailing : List Chars := if last then [[]] else []
  if isDoubleDot segment then shorten file segments ++ trailing
  else if isSingleDot segment then segments ++ trailing
  else segments ++ [normalSegment file segments segment]

/-- Add segments to a path. -/
def enterAll (file : Bool) (segments : List Chars) : List Chars → List Chars
  | [] => segments
  | [segment] => enter file true segments segment
  | segment :: rest => enterAll file (enter file false segments segment) rest

/-- A file path without empty segments at its start. -/
def dropEmpty : List Chars → List Chars
  | [] :: segment :: rest => dropEmpty (segment :: rest)
  | segments => segments

/-- The segments of a path without its first slash. -/
def pathSegments (scheme path : Chars) : List Chars :=
  let file := isFile scheme
  let raw := splitWhere (isSlash (isSpecial scheme)) path
  let segments := enterAll file [] (raw.map (escape pathSet))
  if file then dropEmpty segments else segments

/-- Read a path that follows an authority. -/
def pathAfterAuthority (scheme path : Chars) : List Chars :=
  match path with
  | [] => if isSpecial scheme then [[]] else []
  | c :: cs =>
    if isSlash (isSpecial scheme) c then pathSegments scheme cs else pathSegments scheme (c :: cs)

/-! ## Hosts -/

/-- Characters that no host name of a scheme without rules of its own holds. -/
def isForbiddenInHost (c : Char) : Bool :=
  ['\x00', '\t', '\n', '\r', ' ', '#', '/', ':', '<', '>', '?', '@', '[', '\\', ']', '^',
    '|'].contains c

/-- Read a bracketed address behind its first bracket. -/
def bracketedHost (cs : Chars) : Except Error Host :=
  if cs.getLast? = some ']' then Host.ipv6 <$> parseIpv6 cs.dropLast else .error .invalidIpv6

/-- Read a host of a special scheme. -/
def specialHost (cs : Chars) : Except Error Host :=
  match cs with
  | '[' :: rest => bracketedHost rest
  | _ =>
    match Text.decode (unescape cs) >>= Domain.toAscii with
    | none => .error .invalidDomain
    | some [] => .error .emptyHost
    | some name => if endsInNumber name then Host.ipv4 <$> parseIpv4 name else .ok (.name name)

/-- Read a host of any other scheme. -/
def plainHost (cs : Chars) : Except Error Host :=
  match cs with
  | '[' :: rest => bracketedHost rest
  | _ =>
    if cs.any isForbiddenInHost then .error .forbiddenCharacter
    else .ok (.name (escape controlSet cs))

/-- Split a text behind its host, which ends at a delimiter or at a colon outside brackets. -/
def splitHost (special : Bool) : Bool → Chars → Chars × Chars
  | _, [] => ([], [])
  | bracketed, c :: cs =>
    if (c = ':' ∧ !bracketed) ∨ endsAuthority special c then ([], c :: cs)
    else
      let bracketed := if c = '[' then true else if c = ']' then false else bracketed
      let (host, rest) := splitHost special bracketed cs
      (c :: host, rest)

/-- Read the digits of a port and what follows them. -/
def readPort : Nat → Bool → Chars → Except Error (Option Nat × Chars)
  | port, digits, [] => .ok (if digits then some port else none, [])
  | port, digits, c :: cs =>
    if c.isDigit then
      let port := port * 10 + (c.toNat - '0'.toNat)
      if port > 65535 then .error .invalidPort else readPort port true cs
    else if endsAuthority true c then .ok (if digits then some port else none, c :: cs)
    else .error .invalidPort

/-- Read the port that may follow a host; the default port of the scheme is left out. -/
def portAfterHost (scheme : Chars) : Chars → Except Error (Option Nat × Chars)
  | ':' :: rest => do
    let (port, rest) ← readPort 0 false rest
    return (if port = defaultPort scheme then none else port, rest)
  | rest => .ok (none, rest)

/-- Read host and port. -/
def hostAndPort (scheme cs : Chars) : Except Error (Host × Option Nat × Chars) := do
  let special := isSpecial scheme
  let (text, rest) := splitHost special false cs
  let host ← if special then
      (if text = [] then .error .emptyHost else specialHost text)
    else plainHost text
  if host = .name [] ∧ rest.head? = some ':' then .error .emptyHost
  else
    let (port, rest) ← portAfterHost scheme rest
    return (host, port, rest)

/-! ## Authorities -/

/-- User name and password of the text before the last `@` of an authority. -/
def userinfo (cs : Chars) : Chars × Chars :=
  (escape userinfoSet (cs.takeWhile (· != ':')),
    escape userinfoSet ((cs.dropWhile (· != ':')).drop 1))

/-- Split a text behind the last `@` before the end of its authority. -/
def splitUserinfo (special : Bool) (cs : Chars) : Option (Chars × Chars) :=
  let text := cs.takeWhile (!endsAuthority special ·)
  if text.contains '@' then
    let host := (text.reverse.takeWhile (· != '@')).reverse
    let size := text.length - host.length
    some (text.take (size - 1), cs.drop size)
  else none

/-- Read an authority and return what follows it. User information needs a host. -/
def readAuthority (scheme cs : Chars) : Except Error (Authority × Chars) := do
  let special := isSpecial scheme
  match splitUserinfo special cs with
  | none =>
    let (host, port, rest) ← hostAndPort scheme cs
    return (⟨[], [], host, port⟩, rest)
  | some (info, rest) =>
    let (username, password) := userinfo info
    if info = [] ∧ rest.head?.any (endsAuthority special) then .error .emptyHost
    else
      let (host, port, rest) ← hostAndPort scheme rest
      let authority : Authority := ⟨username, password, host, port⟩
      if host = .name [] ∧ authority.userinfo ≠ [] then .error .emptyHost
      else return (authority, rest)

/-! ## Whole URLs -/

/-- Query and fragment behind a path. -/
def queryAndFragment (scheme : Chars) : Chars → Option Chars × Option Chars
  | '?' :: rest =>
    let set := if isSpecial scheme then specialQuerySet else querySet
    (some (escape set (rest.takeWhile (· != '#'))),
      match rest.dropWhile (· != '#') with
      | [] => none
      | _ :: fragment => some (escape fragmentSet fragment))
  | '#' :: rest => (none, some (escape fragmentSet rest))
  | _ => (none, none)

/-- Put a URL together from what was read before the path and from the text from the path on. -/
def withRest (scheme : Chars) (authority : Option Authority) (path : Chars → Path)
    (cs : Chars) : Url :=
  let (query, fragment) := queryAndFragment scheme (cs.dropWhile (!endsPath ·))
  { scheme, authority, path := path (cs.takeWhile (!endsPath ·)), query, fragment }

/-- Read a URL with an authority from behind its slashes. -/
def parseWithAuthority (scheme cs : Chars) : Except Error Url := do
  let (authority, rest) ← readAuthority scheme cs
  return withRest scheme (some authority) (.segments ∘ pathAfterAuthority scheme) rest

/-- The authority of a local file. -/
def localAuthority : Authority := ⟨[], [], .name [], none⟩

/-- Read the host of a file URL and return what follows it; a drive is no host. -/
def fileHost (cs : Chars) : Except Error (Host × Chars) :=
  let text := cs.takeWhile (!endsAuthority true ·)
  if isDrive text then .ok (.name [], cs)
  else do
    let host ← if text = [] then pure (Host.name []) else specialHost text
    let host := if host = .name "localhost".toList then .name [] else host
    return (host, cs.dropWhile (!endsAuthority true ·))

/-- Read a file URL from behind its colon. A path that starts with a drive has no host. -/
def parseFile (scheme cs : Chars) : Except Error Url := do
  let slashes := (cs.takeWhile (isSlash true)).length
  let (host, rest) ← if 2 ≤ slashes then fileHost (cs.drop 2) else pure (.name [], cs)
  let url := withRest scheme none (.segments ∘ pathAfterAuthority scheme) rest
  let onDrive := match url.path with
    | .segments (segment :: _) => isDrive segment
    | _ => false
  return { url with authority := some { localAuthority with
    host := if onDrive then .name [] else host } }

/-- Read a URL. -/
def parseChars (cs : Chars) : Except Error Url :=
  match splitScheme (strip cs) with
  | none => .error .noBase
  | some (scheme, rest) =>
    if isFile scheme then parseFile scheme rest
    else if isSpecial scheme then parseWithAuthority scheme (rest.dropWhile (isSlash true))
    else
      match rest with
      | '/' :: '/' :: rest => parseWithAuthority scheme rest
      | '/' :: rest => .ok (withRest scheme none (.segments ∘ pathSegments scheme) rest)
      | rest => .ok (withRest scheme none (.plain ∘ escape controlSet) rest)

/-- Read a URL from a text. -/
def parse (text : String) : Except Error Url := parseChars text.toList

end Harvest.Url

import Harvest.Arithmetic
import Harvest.Url.Percent
import Harvest.Text.Split

/-!
# URLs

A URL in its normal form: lower-case scheme, the authority with its default port left out, the path
as a list of escaped segments, query and fragment escaped. `Url.chars` writes it down.
-/

namespace Harvest

/-- The characters of a text. -/
abbrev Chars := List Char

namespace Url

/-- The host of an authority; a name may be empty. -/
inductive Host where
  | name (name : Chars)
  | ipv4 (address : Nat)
  | ipv6 (pieces : List Nat)
deriving DecidableEq, Repr, Inhabited

/-- User information, host and port. An empty user name or password is not written, and neither is
a port that is the default of the scheme. -/
structure Authority where
  username : Chars
  password : Chars
  host : Host
  port : Option Nat
deriving DecidableEq, Repr, Inhabited

/-- A path: segments that each follow a slash, or text without a hierarchy. -/
inductive Path where
  | segments (segments : List Chars)
  | plain (text : Chars)
deriving DecidableEq, Repr, Inhabited

/-- Schemes with rules of their own: their URLs always have a host and a path. -/
def specialSchemes : List (Chars × Option Nat) :=
  [("http".toList, some 80), ("https".toList, some 443), ("ws".toList, some 80),
    ("wss".toList, some 443), ("ftp".toList, some 21), ("file".toList, none)]

/-- Whether a scheme has rules of its own. -/
def isSpecial (scheme : Chars) : Bool := specialSchemes.any (·.1 == scheme)

/-- Whether a scheme is the one of local files. -/
def isFile (scheme : Chars) : Bool := scheme == "file".toList

/-- The port that a scheme stands for. -/
def defaultPort (scheme : Chars) : Option Nat := specialSchemes.lookup scheme |>.join

end Url

/-- A URL. -/
structure Url where
  scheme : Chars
  authority : Option Url.Authority
  path : Url.Path
  query : Option Chars
  fragment : Option Chars
deriving DecidableEq, Repr, Inhabited

namespace Url

/-- The digits of a number. -/
def decimal (n : Nat) : Chars := Nat.toDigits 10 n

/-- An address of four bytes, the highest first. -/
def ipv4Chars (address : Nat) : Chars :=
  let byte (i : Nat) := decimal (address / 256 ^ i % 256)
  byte 3 ++ '.' :: byte 2 ++ '.' :: byte 1 ++ '.' :: byte 0

/-- The number of zeros at the start. -/
def zeroRun (pieces : List Nat) : Nat := (pieces.takeWhile (· == 0)).length

/-- The place and length of the longest run of zeros, the first one of several. -/
def longestZeroRun (pieces : List Nat) : Nat × Nat :=
  (List.range pieces.length).foldl
    (fun best i ↦
      let run := zeroRun (pieces.drop i)
      if best.2 < run then (i, run) else best)
    (0, 0)

/-- Pieces in hexadecimal with colons between them. -/
def colonSeparated (pieces : List Nat) : Chars :=
  Text.joinWith [':'] (pieces.map (Nat.toDigits 16))

/-- An address of eight pieces, the longest run of two or more zeros left out. -/
def ipv6Chars (pieces : List Nat) : Chars :=
  let (start, run) := longestZeroRun pieces
  if run < 2 then colonSeparated pieces
  else colonSeparated (pieces.take start) ++ [':', ':']
    ++ colonSeparated (pieces.drop (start + run))

/-- A host as it is written. -/
def Host.chars : Host → Chars
  | .name n => n
  | .ipv4 address => ipv4Chars address
  | .ipv6 pieces => '[' :: ipv6Chars pieces ++ [']']

/-- User information as it is written before the host. -/
def Authority.userinfo (a : Authority) : Chars :=
  if a.username = [] ∧ a.password = [] then []
  else a.username ++ (if a.password = [] then [] else ':' :: a.password) ++ ['@']

/-- An authority as it is written after the two slashes. -/
def Authority.chars (a : Authority) : Chars :=
  a.userinfo ++ a.host.chars ++ (a.port.map (':' :: decimal ·)).getD []

/-- A path as it is written. -/
def Path.chars : Path → Chars
  | .segments parts => parts.flatMap ('/' :: ·)
  | .plain text => text

/-- What stands between the scheme and the path. A path that starts with two slashes and has no
authority before it is kept apart from one by a dot. -/
def authorityChars (u : Url) : Chars :=
  match u.authority, u.path with
  | some authority, _ => '/' :: '/' :: authority.chars
  | none, .segments ([] :: _ :: _) => ['/', '.']
  | none, _ => []

/-- A URL as it is written, without its fragment. -/
def target (u : Url) : Chars :=
  u.scheme ++ ':' :: u.authorityChars ++ u.path.chars ++ (u.query.map ('?' :: ·)).getD []

/-- A URL as it is written. -/
def chars (u : Url) : Chars :=
  u.target ++ (u.fragment.map ('#' :: ·)).getD []

/-- The text of a URL. -/
def text (u : Url) : String := String.ofList u.chars

/-- Whether a URL has a hierarchical path, so that segments can be added to it. -/
def isHierarchical (u : Url) : Bool :=
  match u.path with
  | .segments _ => true
  | .plain _ => false

/-- Whether a URL is one of the web's. -/
def isWeb (u : Url) : Bool := u.scheme == "http".toList || u.scheme == "https".toList

/-- Whether a URL names a host. -/
def hasHost (u : Url) : Bool :=
  match u.authority with
  | some a => a.host != .name []
  | none => false

end Url

end Harvest

/-!
# URL errors

Why a text is no URL.
-/

namespace Harvest.Url

/-- Why a text is no URL. -/
inductive Error where
  | noBase
  | emptyHost
  | invalidPort
  | invalidIpv4
  | invalidIpv6
  | invalidDomain
  | forbiddenCharacter
deriving DecidableEq, Repr, Inhabited

/-- The wording of a URL error. -/
def Error.message : Error → String
  | noBase => "relative URL without a base"
  | emptyHost => "empty host"
  | invalidPort => "invalid port number"
  | invalidIpv4 => "invalid IPv4 address"
  | invalidIpv6 => "invalid IPv6 address"
  | invalidDomain => "invalid international domain name"
  | forbiddenCharacter => "invalid domain character"

end Harvest.Url

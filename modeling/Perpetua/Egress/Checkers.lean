import Mathlib.Data.Finset.Defs
import Perpetua.Pipeline.Config

/-!
# Default checkers

The model of `default_url_allowed` and `default_address_allowed`, with the deny predicate of
`ssrf_fetch_policy.py`. The telemetry that the adapter emits is left out.
-/

namespace Perpetua.Egress

open Pipeline (PyError)

/-! ## Errors -/

/-- What a pinned request raises. -/
inductive EgressError
  | addressDenied (message : String)
  | redirectDenied (message : String)
  | ssrfPolicyError (message : String)
  | invalidSchema
  /-- What `requests` and `urllib3` raise: a connection that fails, a timeout, a malformed answer. -/
  | requestException
  /-- A checker that was passed in has raised. -/
  | refused
  | uncaught (e : PyError)
  deriving DecidableEq

/-! ## URLs -/

/-- What `urlparse` returns, as far as it is read here. -/
structure SplitUrl where
  scheme : String
  username : Option String
  password : Option String
  hostname : Option String
  /-- Reading the port raises `ValueError` when it is out of range. -/
  port : Except PyError (Option ℕ)

/-- `urllib.parse`. No law is assumed. -/
class UrlLib where
  urlparse : String → Except PyError SplitUrl
  urljoin : String → String → Except PyError String

section

variable [UrlLib]

def parseUrl (url : String) : Except EgressError SplitUrl :=
  (UrlLib.urlparse url).mapError .uncaught

def readPort (parsed : SplitUrl) : Except EgressError (Option ℕ) := parsed.port.mapError .uncaught

/-- `default_url_allowed`. -/
def defaultUrlAllowed (url : String) : Except EgressError Unit :=
  if url.toList.any ['\r', '\n', '\x00'].contains then
    .error (.ssrfPolicyError "control characters in URL")
  else do
    let parsed ← parseUrl url
    if parsed.scheme ∉ ["http", "https"] then
      .error (.ssrfPolicyError ("scheme not allowed: " ++ parsed.scheme))
    else if parsed.username ≠ none ∨ parsed.password ≠ none then
      .error (.ssrfPolicyError "userinfo is not allowed")
    else if parsed.hostname = none ∨ parsed.hostname = some "" then
      .error (.ssrfPolicyError "URL has no hostname")
    else .ok ()

end

/-! ## Addresses -/

inductive IpAddress
  | v4 (value : ℕ)
  | v6 (value : ℕ)
  deriving DecidableEq

/-- The properties that `ipaddress` reads off its tables. -/
structure IpProperties where
  isLoopback : Bool
  isPrivate : Bool
  isLinkLocal : Bool
  isMulticast : Bool
  isReserved : Bool
  isUnspecified : Bool

/-- `ipaddress`. No law is assumed. -/
class IpLib where
  /-- `ip_address`; nothing where it raises `ValueError`. -/
  ipAddress : String → Option IpAddress
  properties : IpAddress → IpProperties

/-- `ipv4_mapped`: the address inside `::ffff:0:0/96`. -/
def IpAddress.ipv4Mapped : IpAddress → Option IpAddress
  | v4 _ => none
  | v6 value => if value / 2 ^ 32 = 0xffff then some (v4 (value % 2 ^ 32)) else none

/-- `_normalize_ip`, once parsed. -/
def IpAddress.normalized (addr : IpAddress) : IpAddress := addr.ipv4Mapped.getD addr

/-- `fd00:ec2::254`. -/
def awsImdsIpv6 : IpAddress := .v6 0xfd000ec2000000000000000000000254

/-- `169.254.170.2`. -/
def ecsMetadataIpv4 : IpAddress := .v4 0xa9feaa02

/-- `100.64.0.0/10`. -/
def inCgnatRange : IpAddress → Bool
  | .v4 value => value / 2 ^ 22 = 0x64400000 / 2 ^ 22
  | .v6 _ => false

section

variable [IpLib]

/-- `_is_denied_ip`. -/
def isDeniedIp (addr : IpAddress) : Bool :=
  let addr := addr.normalized
  let is := IpLib.properties addr
  addr = awsImdsIpv6 || addr = ecsMetadataIpv4 || inCgnatRange addr || is.isLoopback ||
    is.isPrivate || is.isLinkLocal || is.isMulticast || is.isReserved || is.isUnspecified

/-- `default_address_allowed`. -/
def defaultAddressAllowed (raw : String) : Except EgressError Unit :=
  match IpLib.ipAddress raw with
  | none => .error (.addressDenied ("unparseable address: " ++ raw))
  | some addr =>
      if isDeniedIp addr.normalized then .error (.addressDenied ("blocked address: " ++ raw))
      else .ok ()

end

end Perpetua.Egress

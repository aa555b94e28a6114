import Perpetua.Pipeline.Transport

/-!
# Model endpoints

The model of `validate_model_endpoint_url`: which base URLs a model server may have. The texts of
its errors are left out, since nothing here reads them.
-/

namespace Perpetua.Gate

open Pipeline

/-- What `ipaddress.ip_address` says about an address. -/
structure IpAddress where
  isLinkLocal : Bool
  isLoopback : Bool
  isPrivate : Bool

/-- `ipaddress.ip_address`: nothing where it raises `ValueError`. An IPv4-mapped IPv6 address comes
with the address it wraps. No law is assumed. -/
class IpAddresses where
  ipAddress : String → Option (IpAddress × Option IpAddress)

/-- What `validate_model_endpoint_url` raises. -/
inductive EndpointError
  | modelEndpointPolicyError
  | uncaught (e : PyError)
  deriving DecidableEq

variable [PyRuntime] [UrlParser] [IpAddresses]

/-- `_ALLOWED_SCHEMES`. -/
def allowedSchemes : List String := ["http", "https"]

def normalizedHost (host : String) : String := PyRuntime.lower (PyText.strip host)

def isLocalName (name : String) : Bool :=
  name == "localhost" || name == "::1" || ".localhost".toList.isSuffixOf name.toList

/-- The address a host stands for, the wrapped one where there is one. -/
def addressOf (name : String) : Option IpAddress :=
  (IpAddresses.ipAddress name).map fun (addr, mapped) => mapped.getD addr

/-- `_host_allowed`. -/
def hostAllowed (host : String) (allowPublic : Bool) : Bool :=
  let normalized := normalizedHost host
  if normalized == "" then false
  else if isLocalName normalized then true
  else
    match addressOf normalized with
    | none => allowPublic
    | some addr =>
        -- Link-local addresses are refused before the private ones are let through.
        if addr.isLinkLocal then false
        else if addr.isLoopback || addr.isPrivate then true
        else allowPublic

/-- `_is_loopback_host`. -/
def isLoopbackHost (host : String) : Bool :=
  isLocalName (normalizedHost host) ||
    (addressOf (normalizedHost host)).any fun addr => addr.isLoopback

/-- A bare `host:port` is read as an http URL. -/
def withScheme (raw : String) : String :=
  if "://".toList <:+: raw.toList then raw else "http://" ++ raw

def bracketed (host : String) : String :=
  if host.toList.contains ':' && host.toList.head? != some '[' then "[" ++ host ++ "]" else host

/-- `validate_model_endpoint_url` with `allow_public` given. -/
def validateModelEndpointUrl (url : String) (allowPublic : Bool)
    (requireTlsForNonLoopback : Bool := false) : Except EndpointError String :=
  let raw := PyText.strip url
  if raw == "" then .error .modelEndpointPolicyError
  else
    match UrlParser.urlparse (withScheme raw) with
    | .error .valueError => .error .modelEndpointPolicyError
    | .error e => .error (.uncaught e)
    | .ok parsed =>
        let scheme := PyRuntime.lower parsed.scheme
        if !allowedSchemes.contains scheme then .error .modelEndpointPolicyError
        else if parsed.username != "" || parsed.password != "" then
          .error .modelEndpointPolicyError
        else
          match parsed.hostname with
          | none | some "" => .error .modelEndpointPolicyError
          | some host =>
              match parsed.port with
              | .error .valueError => .error .modelEndpointPolicyError
              | .error e => .error (.uncaught e)
              | .ok port =>
                  if !hostAllowed host allowPublic then .error .modelEndpointPolicyError
                  else if requireTlsForNonLoopback && scheme == "http" && !isLoopbackHost host then
                    .error .modelEndpointPolicyError
                  else
                    -- Nothing to strip on the right: the text ends in a digit.
                    .ok (scheme ++ "://" ++ bracketed host ++ ":" ++
                      toString (port.getD (if scheme == "https" then 443 else 80)))

end Perpetua.Gate

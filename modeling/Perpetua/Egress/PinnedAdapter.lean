import Perpetua.Egress.Checkers
import Perpetua.Lib.Logged

/-!
# Pinned requests

The model of `ssrf_request` with a session of its own. The server, the resolver and the libraries
may answer each call in any way, whatever has happened before: `World` is a function of the events
so far. The libraries call `build_connection_pool_key_attributes` before each send and connect to
the host it returns. Within one `sess.request` they may send more than once.
-/

namespace Perpetua.Egress

/-! ## Requests and responses -/

/-- A body, a file or credentials that the caller passes through. -/
abbrev Payload := String

/-- The keyword arguments of a request; `proxies` tells whether a proxy is named. -/
structure Kwargs where
  data : Option Payload := none
  json : Option Payload := none
  files : Option Payload := none
  headers : List (String × String) := []
  auth : Option Payload := none
  cookies : List (String × String) := []
  proxies : Bool := false
  deriving DecidableEq

structure Response where
  statusCode : ℕ
  /-- The `Location` header. -/
  location : Option String
  deriving DecidableEq

/-- `Response.is_redirect`. -/
def Response.isRedirect (r : Response) : Bool :=
  r.location.isSome && [301, 302, 303, 307, 308].contains r.statusCode

/-- What the libraries make of the arguments. -/
structure PreparedRequest where
  method : String
  url : String
  headers : List (String × String)
  body : Option Payload
  deriving DecidableEq

/-- A request on its connection. -/
structure SentRequest extends PreparedRequest where
  hostHeader : String
  /-- The address of the connection. -/
  host : String
  serverHostname : Option String
  deriving DecidableEq

inductive Event
  /-- The hop loop calls `sess.request`. -/
  | requested (method url : String) (kwargs : Kwargs)
  /-- A resolution with the addresses it has given. -/
  | resolved (hostname : String) (port : ℕ) (addresses : List String)
  | sent (request : SentRequest)
  /-- `sess.request` returns or raises. -/
  | answered (outcome : Except EgressError Response)
  deriving DecidableEq

abbrev Log := List Event

/-- How the connection to an address comes about. -/
inductive Connection
  | failed
  /-- One of the pool of this address. -/
  | reused
  | opened (peer : String)

/-- The outside world, each answer after what has happened so far. -/
structure World where
  prepare : Log → String → String → Kwargs → Except EgressError PreparedRequest
  /-- What `sess.request` sends after the response to its first request, as digest authentication
  does in answer to a 401. -/
  resends : Log → List PreparedRequest
  /-- Whether the environment names a proxy for the URL. -/
  environProxy : Log → String → Bool
  /-- `getaddrinfo`: the hosts of the socket addresses, nothing where it raises `gaierror`. -/
  getaddrinfo : Log → String → ℕ → Option (List (Option String))
  connect : Log → String → Connection
  /-- Nothing where the exchange fails, or the answer is one that `requests` cannot take. -/
  respond : Log → Option Response

/-- A computation that leaves its events in the log. -/
abbrev Net (α : Type) := Logged EgressError Event α

/-! ## The adapter -/

abbrev Checker := String → Except EgressError Unit

/-- The values that are kept, in their order, each at its first place. -/
def firstSeen (l : List (Option String)) : List String :=
  l.foldl (fun seen a =>
    match a with
    | none => seen
    | some ip => if ip ∈ seen then seen else seen ++ [ip]) []

/-- `resolve_all`. -/
def resolveAll (w : World) (hostname : String) (port : ℕ) : Net (List String) := do
  match ← Logged.ask fun log => w.getaddrinfo log hostname port with
  | none => Logged.raise (.addressDenied ("DNS failed for " ++ hostname))
  | some infos =>
      let seen := firstSeen infos
      Logged.emit (.resolved hostname port seen)
      if seen = [] then Logged.raise (.addressDenied ("no addresses for " ++ hostname)) else return seen

/-- `validate_resolved`. -/
def validateResolved (w : World) (checker : Checker) (hostname : String) (port : ℕ) :
    Net (List String) := do
  let ips ← resolveAll w hostname port
  Logged.lift (ips.forM checker)
  return ips

/-- `_host_header`. -/
def hostHeader (hostname : String) (port : ℕ) (scheme : String) : String :=
  let host :=
    if hostname.toList.contains ':' && hostname.toList.head? != some '[' then
      "[" ++ hostname ++ "]"
    else hostname
  if port = if scheme = "https" then 443 else 80 then host else host ++ ":" ++ toString port

/-- What `build_connection_pool_key_attributes` says about a request. -/
structure HostParams where
  host : String
  hostHeader : String
  serverHostname : Option String

section

variable [UrlLib]

/-- `parsed.port or (443 if scheme == "https" else 80)`. -/
def portOf (parsed : SplitUrl) : Except EgressError ℕ := do
  match ← readPort parsed with
  | none | some 0 => return if parsed.scheme = "https" then 443 else 80
  | some port => return port

/-- `build_connection_pool_key_attributes`. -/
def buildConnectionPoolKeyAttributes (w : World) (addressChecker urlChecker : Checker)
    (url : String) : Net HostParams := do
  let parsed ← Logged.lift (parseUrl url)
  let hostname := parsed.hostname.getD ""
  let port ← Logged.lift (portOf parsed)
  Logged.lift (urlChecker url)
  let ips ← validateResolved w addressChecker hostname port
  let pinned := ips.headD ""
  return {
    host := pinned, hostHeader := hostHeader hostname port parsed.scheme
    serverHostname := if parsed.scheme = "https" then some hostname else none }

/-- Whether the session has an adapter for the URL: the pinned one, under `http://` and `https://`. -/
def isMounted [Pipeline.PyRuntime] (url : String) : Bool :=
  ["https://", "http://"].any fun pre =>
    pre.toList.isPrefixOf (Pipeline.PyRuntime.lower url).toList

/-- `get_adapter`. -/
def getAdapter [Pipeline.PyRuntime] (url : String) : Net Unit :=
  Logged.lift (if isMounted url then .ok () else .error .invalidSchema)

/-- `_new_conn`: the peer of a new connection is checked again. -/
def newConn (w : World) (addressChecker : Checker) (host : String) : Net Unit := do
  match ← Logged.ask fun log => w.connect log host with
  | .failed => Logged.raise .requestException
  | .reused => return ()
  | .opened peer => Logged.lift (addressChecker peer)

/-- `send` of the adapter. -/
def send (w : World) (addressChecker urlChecker : Checker) (proxied : Bool)
    (prepared : PreparedRequest) : Net Response := do
  if proxied then Logged.raise (.ssrfPolicyError "proxies are not supported on the pinned adapter")
  else do
    let params ← buildConnectionPoolKeyAttributes w addressChecker urlChecker prepared.url
    newConn w addressChecker params.host
    Logged.emit (.sent {
      prepared with
      hostHeader := params.hostHeader, host := params.host, serverHostname := params.serverHostname })
    match ← Logged.ask w.respond with
    | none => Logged.raise .requestException
    | some response => return response

/-- The requests that follow the first one; the response to the last one is returned. -/
def sendAll (w : World) (addressChecker urlChecker : Checker) (proxied : Bool) :
    List PreparedRequest → Response → Net Response
  | [], response => return response
  | prepared :: rest, _ => do
      let response ← send w addressChecker urlChecker proxied prepared
      sendAll w addressChecker urlChecker proxied rest response

variable [Pipeline.PyRuntime]

/-- `sess.request` without redirects. What is sent again goes to the adapter of the first request. -/
def sessRequest (w : World) (addressChecker urlChecker : Checker) (method url : String)
    (kwargs : Kwargs) : Net Response := do
  let prepared ← Logged.lift (← Logged.ask fun log => w.prepare log method url kwargs)
  getAdapter prepared.url
  let proxied := kwargs.proxies || (← Logged.ask fun log => w.environProxy log prepared.url)
  let response ← send w addressChecker urlChecker proxied prepared
  sendAll w addressChecker urlChecker proxied (← Logged.ask w.resends) response

/-! ## The hop loop -/

/-- What 301, 302 and 303 turn a request into. -/
def nextRequest (status : ℕ) (method : String) (kwargs : Kwargs) : String × Kwargs :=
  if status = 301 ∨ status = 302 ∨ status = 303 then
    ("GET", { kwargs with data := none, json := none, files := none })
  else (method, kwargs)

/-- The loop of `ssrf_request`. `max_redirects - hops` decreases, and a round at or past the limit
is the last one. -/
def hop (w : World) (addressChecker urlChecker : Checker) (maxRedirects : ℤ)
    (allowRedirects : Bool) (hops : ℕ) (method current : String) (kwargs : Kwargs) :
    Net Response := do
  Logged.lift (urlChecker current)
  getAdapter current
  let response ← Logged.recorded (.requested method current kwargs) .answered
    (sessRequest w addressChecker urlChecker method current kwargs)
  if !allowRedirects || !response.isRedirect then return response
  else if maxRedirects ≤ hops then do
    -- The limit is reported with the host and the port of the URL, and reading them may raise.
    let parsed ← Logged.lift (parseUrl current)
    let _ ← Logged.lift (portOf parsed)
    Logged.raise (.redirectDenied ("redirect limit " ++ toString maxRedirects ++ " exceeded"))
  else
    match response.location with
    | none | some "" => Logged.raise (.redirectDenied "redirect without Location")
    | some location => do
        let next ← Logged.lift ((UrlLib.urljoin current location).mapError .uncaught)
        Logged.lift (urlChecker next)
        let (method, kwargs) := nextRequest response.statusCode method kwargs
        hop w addressChecker urlChecker maxRedirects allowRedirects (hops + 1) method next kwargs
termination_by (maxRedirects - hops).toNat
decreasing_by omega

/-- `ssrf_request`, and the events it leaves. -/
def ssrfRequest [IpLib] (w : World) (method url : String) (maxRedirects : ℤ)
    (allowRedirects : Bool) (addressChecker urlChecker : Option Checker) (kwargs : Kwargs) :
    Except EgressError Response × Log :=
  hop w (addressChecker.getD defaultAddressAllowed) (urlChecker.getD defaultUrlAllowed) maxRedirects
    allowRedirects 0 method url kwargs []

end

end Perpetua.Egress

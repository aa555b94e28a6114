import Perpetua.Pipeline.Runner

/-!
# Provider transport

The model of `ProviderTransportRegistry`: the provider configuration, the checks before any I/O, the
retry loop of `_post` and the reading of its answer. What the HTTP client does in each attempt is
arbitrary. Request headers and delays, which decide nothing, are left out.
-/

namespace Perpetua.Pipeline

open Budget (DispatchResult)

/-! ## Providers -/

structure ProviderConfig where
  backend : String
  credentialEnv : String
  allowedHosts : List String
  documentationHosts : List String
  defaultApiPath : String
  maxAttempts : ℕ
  apiVersion : Option String
  attempts : 1 ≤ maxAttempts ∧ maxAttempts ≤ 3

/-- `ProviderConfigError`, or what is not caught. -/
inductive ProviderError
  | config
  | uncaught (e : PyError)
  deriving DecidableEq, Repr

section

variable [PyRuntime]

/-- A list of non-blank texts. -/
def hostList : Option Yaml → Option (List String)
  | some (.seq items) =>
      items.mapM fun item =>
        match item with
        | .str host =>
            if PyText.blank host then none else some (PyRuntime.lower (PyText.strip host))
        | _ => none
  | _ => none

/-- `int(row.get("max_attempts", 1))` and `float(row.get("timeout_seconds", 60))`. -/
def limits (row : List (Yaml × Yaml)) : Except PyError (Json.Number × ℤ) := do
  let timeoutSeconds ← ((Yaml.lookup "timeout_seconds" row).getD (.num (.int 60))).toFloat
  let maxAttempts ← ((Yaml.lookup "max_attempts" row).getD (.num (.int 1))).toInt
  .ok (timeoutSeconds, maxAttempts)

def loadProvider (configs : List (String × ProviderConfig)) :
    Yaml × Yaml → Except ProviderError (List (String × ProviderConfig))
  | (.str backend, .map row) =>
      let credentialEnv := textField "credential_env" row
      let defaultApiPath := textField "default_api_path" row
      match limits row with
      | .error .typeError | .error .valueError => .error .config
      | .error e => .error (.uncaught e)
      | .ok (timeoutSeconds, maxAttempts) =>
          match hostList (Yaml.lookup "allowed_hosts" row),
              hostList (Yaml.lookup "documentation_hosts" row) with
          | some allowedHosts, some documentationHosts =>
              if credentialEnv = "" || !defaultApiPath.startsWith "/" ||
                  numberLe timeoutSeconds (.int 0) then .error .config
              else if h : 1 ≤ maxAttempts.toNat ∧ maxAttempts.toNat ≤ 3 then
                let apiVersion := (Yaml.lookup "api_version" row).filter Yaml.truthy
                .ok (Entries.set configs backend
                  { backend, credentialEnv, allowedHosts, documentationHosts, defaultApiPath
                    maxAttempts := maxAttempts.toNat
                    apiVersion := apiVersion.map fun v => PyText.strip v.text
                    attempts := h })
              else .error .config
          | _, _ => .error .config
  | _ => .error .config

/-- `_load_provider_configs`. -/
def loadProviderConfigs : YamlFile → Except ProviderError (List (String × ProviderConfig))
  | .missing | .unreadable => .error .config
  | .undecodable => .error (.uncaught .valueError)
  | .parsed v =>
      match v with
      | .map entries =>
          match Yaml.lookup "providers" entries with
          | some (.map (row :: rows)) => (row :: rows).foldlM loadProvider []
          | _ => .error .config
      | _ => .error .config

end

/-! ## Attempts -/

/-- The body of a response. -/
inductive Body
  | parsed (v : Json.Value)
  | unparsable

/-- What one `client.post` comes to. -/
inductive Reply
  | response (status : ℕ) (requestId : Option String) (body : Body)
  | connectError
  | timeout
  /-- Any other `NetworkError`. -/
  | networkError
  | protocolError
  /-- Any other exception. -/
  | otherError

def retryableStatusCodes : List ℕ := [408, 409, 425, 429, 502, 503, 504]

def ambiguousStatusCodes : List ℕ := [500, 502, 504]

structure ProviderTransportError where
  provider : String
  statusCode : Option ℕ := none
  requestId : Option String := none
  retryable : Bool := false
  fallbackSafe : Bool
  deriving DecidableEq, Repr

/-- `ProviderTransportError(provider)`: no status, so no fallback. -/
def ProviderTransportError.unanswered (provider : String) : ProviderTransportError :=
  { provider, fallbackSafe := false }

/-- `ProviderTransportError` with a status code; the code decides whether a fallback is safe. -/
def ProviderTransportError.ofStatus (provider : String) (statusCode : ℕ)
    (requestId : Option String) (retryable : Bool) : ProviderTransportError :=
  { provider, statusCode := some statusCode, requestId, retryable
    fallbackSafe := statusCode ∉ ambiguousStatusCodes }

/-- What `_post` raises. -/
inductive PostError
  | transport (e : ProviderTransportError)
  | assertion
  | other

abbrev JsonObject := List (String × Json.Value)

/-- What `_post` does with one attempt. -/
inductive Settled
  | stop (r : Except PostError JsonObject)
  /-- `last_error`, and on to the next attempt. -/
  | retry (e : ProviderTransportError)

/-- The body of the loop of `_post`. -/
def settleAttempt (provider : String) : Reply → Settled
  | .response status requestId body =>
      if status < 400 then
        match body with
        | .parsed (.obj fields) => .stop (.ok fields)
        | _ => .stop (.error (.transport (.unanswered provider)))
      else
        let retryable := retryableStatusCodes.contains status
        let e := ProviderTransportError.ofStatus provider status requestId retryable
        if retryable then .retry e else .stop (.error (.transport e))
  | .connectError => .retry { provider, retryable := true, fallbackSafe := true }
  | .timeout | .networkError | .protocolError =>
      .retry { provider, retryable := true, fallbackSafe := false }
  | .otherError => .stop (.error .other)

/-- The loop of `_post` from the attempt `attempt`, with `fuel` attempts left; the replies it has
seen come with the result. -/
def postLoop (provider : String) (replies : ℕ → Reply) :
    (fuel attempt : ℕ) → Option ProviderTransportError → Except PostError JsonObject × List Reply
  | 0, _, lastError =>
      (match lastError with | none => .error .assertion | some e => .error (.transport e), [])
  | fuel + 1, attempt, _ =>
      match settleAttempt provider (replies attempt) with
      | .stop r => (r, [replies attempt])
      | .retry e =>
          let (r, seen) := postLoop provider replies fuel (attempt + 1) (some e)
          (r, replies attempt :: seen)

/-- `_post`. -/
def post (provider : ProviderConfig) (replies : ℕ → Reply) :
    Except PostError JsonObject × List Reply :=
  postLoop provider.backend replies provider.maxAttempts 0 none

/-! ## Before the request -/

/-- What `urlparse` returns. -/
structure ParsedUrl where
  scheme : String
  hostname : Option String
  username : String
  password : String
  path : String
  query : String
  fragment : String
  port : Except PyError (Option ℕ)

/-- `urllib.parse.urlparse`. -/
class UrlParser where
  urlparse : String → Except PyError ParsedUrl

structure ModelTarget where
  name : String
  backend : String
  device : String
  host : String
  apiModel : String
  apiPath : String
  providerOptions : Yaml
  provenance : Yaml
  frugalityTier : Yaml

structure ProviderTransportRegistry where
  providers : List (String × ProviderConfig)
  models : List (String × ModelTarget)

/-- The response shapes. -/
inductive Adapter
  | anthropic
  | openai
  deriving DecidableEq, Repr

def openaiShapeBackends : List String := ["mistral", "deepseek", "groq", "dashscope", "meta_llama"]

def allowedEfforts : List String := ["low", "medium", "high", "xhigh", "max"]

/-- A request that has passed every check. -/
structure Prepared where
  provider : ProviderConfig
  adapter : Adapter
  endpoint : String
  apiModel : String

/-- A text of a mapping. -/
def textOfMapping (key : String) : Yaml → Option String
  | .map entries =>
      match Yaml.lookup key entries with
      | some (.str s) => some s
      | _ => none
  | _ => none

def checkConfig (c : Bool) : Except ProviderError Unit := if c then .ok () else .error .config

def uncaughtError {α : Type} (r : Except PyError α) : Except ProviderError α := r.mapError .uncaught

/-- The options that `_anthropic_payload` lets through. -/
def checkOutputConfig : Yaml → Except ProviderError Unit
  | .map options =>
      match Yaml.lookup "output_config" options with
      | none | some .null => .ok ()
      | some (.map outputConfig) =>
          match Yaml.lookup "effort" outputConfig with
          | some (.str effort) =>
              checkConfig (allowedEfforts.contains effort && outputConfig.length == 1)
          -- an unhashable value cannot be looked up in the set
          | some (.seq _) | some (.map _) => .error (.uncaught .typeError)
          | _ => .error .config
      | some _ => .error .config
  | _ => .ok ()

/-- `_credential`. -/
def checkCredential (getenv : String → Option String) (provider : ProviderConfig) :
    Except ProviderError Unit :=
  checkConfig (!PyText.blank ((getenv provider.credentialEnv).getD ""))

/-- The adapter of a backend, once its own settings have been checked. -/
def chooseAdapter (target : ModelTarget) (provider : ProviderConfig) :
    Except ProviderError Adapter :=
  if target.backend = "anthropic" then do
    checkConfig (provider.apiVersion.any (· ≠ ""))
    checkOutputConfig target.providerOptions
    .ok .anthropic
  else if target.backend = "openrouter" ∨ target.backend = "bigmodel" ∨
      target.backend ∈ openaiShapeBackends then .ok .openai
  else .error .config

section

variable [PyRuntime] [UrlParser]

/-- `_endpoint`. -/
def endpoint (target : ModelTarget) (provider : ProviderConfig) : Except ProviderError String := do
  let parsed ← uncaughtError (UrlParser.urlparse target.host)
  let hostname := PyRuntime.lower (parsed.hostname.getD "")
  checkConfig (parsed.scheme == "https" && provider.allowedHosts.contains hostname)
  checkConfig (parsed.username == "" && parsed.password == "" && parsed.query == "" &&
    parsed.fragment == "" && ["", "/"].contains parsed.path)
  let port ← uncaughtError parsed.port
  checkConfig (port == none || port == some 443)
  let apiPath := if target.apiPath = "" then provider.defaultApiPath else target.apiPath
  checkConfig (apiPath.startsWith "/" && !decide ("//".toList <:+: apiPath.toList))
  .ok ("https://" ++ hostname ++ apiPath)

/-- `_require_verified_provenance`; the source is parsed first, whatever the rest says. -/
def requireVerifiedProvenance (target : ModelTarget) (provider : ProviderConfig) :
    Except ProviderError Unit := do
  checkConfig (target.provenance matches .map _)
  match textOfMapping "source_url" target.provenance with
  | none => .error .config
  | some source =>
      let parsed ← uncaughtError (UrlParser.urlparse source)
      checkConfig (textOfMapping "kind" target.provenance == some "provider-api" &&
        textOfMapping "source_model_id" target.provenance == some target.apiModel &&
        parsed.scheme == "https" &&
        parsed.hostname.any fun h =>
          h ≠ "" && provider.documentationHosts.contains (PyRuntime.lower h))

/-- The checks of `dispatch` before `commit()`. -/
def ProviderTransportRegistry.prepare (t : ProviderTransportRegistry)
    (getenv : String → Option String) (model : String) : Except ProviderError Prepared :=
  match Entries.get? t.models model with
  | none => .error .config
  | some target => do
      checkConfig (target.frugalityTier.equalsInt pipelineTier && target.device == "cloud")
      match Entries.get? t.providers target.backend with
      | none => .error .config
      | some provider => do
          requireVerifiedProvenance target provider
          checkCredential getenv provider
          let endpoint ← endpoint target provider
          let adapter ← chooseAdapter target provider
          .ok { provider, adapter, endpoint, apiModel := target.apiModel }

end

/-! ## After the request -/

/-- `_openai_text`, where every missing part raises the same error. -/
def openaiText (body : JsonObject) : Option String :=
  match Entries.get? body "choices" with
  | some (.arr (.obj choice :: _)) =>
      match Entries.get? choice "message" with
      | some (.obj message) =>
          match Entries.get? message "content" with
          | some (.str content) => if PyText.blank content then none else some content
          | _ => none
      | _ => none
  | _ => none

/-- The text of one content block of `_anthropic_text`. -/
def blockText : Json.Value → String
  | .obj block =>
      match Entries.get? block "type", Entries.get? block "text" with
      | some (.str "text"), some (.str text) => text
      | _, _ => ""
  | _ => ""

/-- `_anthropic_text`. -/
def anthropicText (body : JsonObject) : Option String :=
  match Entries.get? body "content" with
  | some (.arr blocks) =>
      let text := String.join (blocks.map blockText)
      if PyText.blank text then none else some text
  | _ => none

/-- `int(value) if isinstance(value, (int, float)) else None`. -/
def tokenCount : Option Json.Value → Except PyError (Option ℤ)
  | some (.bool b) => .ok (some (if b then 1 else 0))
  | some (.num (.int n)) => .ok (some n)
  | some (.num (.float f)) => .ok (some (PyNumber.truncate f.val))
  | some (.num .nan) => .error .valueError
  | some (.num _) => .error .overflowError
  | _ => .ok none

/-- `float(cost) if isinstance(cost, (int, float)) else None`; a cost that is not finite has no
rational and counts as absent. -/
def cost : Option Json.Value → Except PyError (Option ℚ)
  | some (.bool b) => .ok (some (if b then 1 else 0))
  | some (.num (.int n)) =>
      if n.natAbs < 2 ^ 1024 - 2 ^ 970 then .ok (some n) else .error .overflowError
  | some (.num n) => .ok n.val?
  | _ => .ok none

/-- `_openai_usage` and `_anthropic_usage`. -/
def usage (adapter : Adapter) (body : JsonObject) : Except PyError (Option ℤ × Option ℚ) :=
  match Entries.get? body "usage" with
  | some (.obj fields) =>
      match adapter with
      | .openai => do
          let tokens ← tokenCount (Entries.get? fields "total_tokens")
          let costUsd ← cost (Entries.get? fields "cost")
          .ok (tokens, costUsd)
      | .anthropic => do
          let isNumber : Option Json.Value → Bool := fun v =>
            match v with
            | some (.num _) | some (.bool _) => true
            | _ => false
          let input := Entries.get? fields "input_tokens"
          let output := Entries.get? fields "output_tokens"
          if !(isNumber input && isNumber output) then .ok (none, none)
          else
            let input ← tokenCount input
            let output ← tokenCount output
            .ok (input.bind fun i => output.map (i + ·), none)
  | _ => .ok (none, none)

/-- The text of a response; without one, `ProviderTransportError`. -/
def Adapter.extractText : Adapter → JsonObject → Option String
  | .openai => openaiText
  | .anthropic => anthropicText

/-! ## One dispatch -/

/-- What one call of `dispatch` meets. -/
structure Exchange where
  getenv : String → Option String
  /-- `commit()` raises. -/
  commitFails : Bool
  replies : ℕ → Reply

variable [PyRuntime] [UrlParser]

/-- The request that reaches `_post`. -/
def ProviderTransportRegistry.posted (t : ProviderTransportRegistry) (x : Exchange)
    (model : String) : Option Prepared :=
  match t.prepare x.getenv model with
  | .ok p => if x.commitFails then none else some p
  | .error _ => none

/-- The attempts of one call. -/
def ProviderTransportRegistry.attempts (t : ProviderTransportRegistry) (x : Exchange)
    (model : String) : List Reply :=
  match t.posted x model with
  | some p => (post p.provider x.replies).2
  | none => []

/-- `dispatch`. -/
def ProviderTransportRegistry.dispatch (t : ProviderTransportRegistry) (x : Exchange)
    (model : String) : Answer :=
  match t.prepare x.getenv model with
  | .error .config => .unavailable true
  | .error (.uncaught _) => .failed
  | .ok p =>
      if x.commitFails then .failed
      else
        match (post p.provider x.replies).1 with
        | .error (.transport e) => .unavailable e.fallbackSafe
        | .error _ => .failed
        | .ok body =>
            match usage p.adapter body with
            | .error _ => .failed
            | .ok (totalTokens, costUsd) =>
                match p.adapter.extractText body with
                | none =>
                    .unavailable (ProviderTransportError.unanswered p.provider.backend).fallbackSafe
                | some text => .returned { text, totalTokens, costUsd }

/-- The dispatcher that calls the transport; `exchange` says what its call meets. -/
def ProviderTransportRegistry.dispatcher (t : ProviderTransportRegistry)
    (exchange : List Event → Exchange) (log : List Event) : Answer :=
  match log.getLast? with
  | some (.dispatch d) => t.dispatch (exchange log) d.model
  | _ => .failed

end Perpetua.Pipeline

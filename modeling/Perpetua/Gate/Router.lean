import Perpetua.Gate.Endpoint
import Perpetua.Gate.Policy
import Perpetua.Lib.Except

/-!
# The frugality router and the gate in front of it

The model of `resolve_route` (the probes of the tiers 0 to 2 and the escalation past them), of
`consult_gate` and of `filter_chain_by_gate`. What a registry resolves, the offline flag and the
outcome of writing the trace are given.
-/

namespace Perpetua.Gate

open Pipeline

/-! ## Calls -/

structure ToolCallSpec where
  taskType : String
  modelHint : Option String
  estTokens : ℤ
  privacyCritical : Bool
  parentId : Option String := none
  escalationReason : Option String
  inContext : Bool := false
  baseUrlOverride : Option String := none
  targetTier : String := "shared"
  windowsOnly : Bool

structure Backend where
  name : String
  baseUrl : Option String
  models : List String

/-- The dictionary that `_probe_tier_1` hands to the resolver. -/
structure LaunchSpec where
  taskType : String
  modelHint : Option String
  targetTier : String
  baseUrlOverride : Option String
  windowsOnly : Bool
  deriving DecidableEq

inductive ResolveError
  | policyUnavailable
  | uncaught (what : String)

/-- A `BackendRegistry`, as `resolve_backend_for_spec` answers for it. -/
abbrev Registry := LaunchSpec → Except ResolveError Backend

/-- What a consultation finds around it. -/
structure Surroundings where
  /-- `is_offline_mode()`. -/
  offline : Bool
  /-- `orchestrator.backend_resolver` could be imported. -/
  resolverInstalled : Bool := true
  /-- What writing the trace raises, if anything. -/
  traceFault : Option String := none

/-- What leaves a function as an exception. -/
inductive Raised
  | frugalityPolicyError (message : String)
  | endpoint (e : PyError)
  | uncaught (what : String)

/-! ## Tier policy -/

/-- What `max_allowed_tier` reads. -/
def ToolCallSpec.request (w : Surroundings) (spec : ToolCallSpec) : Request where
  offline := w.offline
  privacyCritical := spec.privacyCritical

/-- `_enforce_tier_policy`. -/
def enforceTierPolicy (w : Surroundings) (tier : ℤ) (spec : ToolCallSpec) : Except Raised Unit :=
  if w.offline ∧ 3 ≤ tier then
    .error (.frugalityPolicyError
      ("ORAMASYS_OFFLINE=1 rejects tier >= 3 (requested tier " ++ toString tier ++ ")"))
  else if spec.privacyCritical ∧ 4 ≤ tier then
    .error (.frugalityPolicyError
      ("privacy_critical=True forbids tier >= 4 (requested tier " ++ toString tier ++ ")"))
  else .ok ()

/-- `_emit_trace`. -/
def emitTrace (w : Surroundings) : Except Raised Unit :=
  match w.traceFault with
  | none => .ok ()
  | some fault => .error (.uncaught fault)

section Router

variable [PyRuntime] [UrlParser] [IpAddresses]

/-- `_validate_tier1_local_backend`. -/
def validateTier1LocalBackend (w : Surroundings) (spec : ToolCallSpec) (backend : Backend) :
    Except Raised Unit :=
  if w.offline ∨ spec.privacyCritical then
    match backend.baseUrl with
    | none | some "" =>
        .error (.frugalityPolicyError
          "tier-1 backend missing base_url under restricted egress policy")
    | some url =>
        match validateModelEndpointUrl url false with
        | .ok _ => .ok ()
        | .error .modelEndpointPolicyError =>
            .error (.frugalityPolicyError
              ((if w.offline then "ORAMASYS_OFFLINE=1" else "privacy_critical=True") ++
                " rejects non-local tier-1 backend"))
        | .error (.uncaught e) => .error (.endpoint e)
  else .ok ()

/-! ## Probes -/

/-- `_probe_tier_0`. -/
def probeTier0 (spec : ToolCallSpec) : Option ResolvedRoute :=
  if spec.inContext || spec.taskType == "in_context" then
    some { tier := 0, backend := some "in_context" }
  else none

def ToolCallSpec.launchSpec (spec : ToolCallSpec) : LaunchSpec where
  taskType := spec.taskType
  modelHint := spec.modelHint
  targetTier := spec.targetTier
  baseUrlOverride := spec.baseUrlOverride
  windowsOnly := spec.windowsOnly

/-- `_probe_tier_1`. -/
def probeTier1 (w : Surroundings) (spec : ToolCallSpec) (registry : Option Registry) :
    Except Raised (Option ResolvedRoute) :=
  match registry with
  | none => .ok none
  | some resolveBackendForSpec =>
      if w.resolverInstalled then
        match resolveBackendForSpec spec.launchSpec with
        | .error .policyUnavailable => .ok none
        | .error (.uncaught what) => .error (.uncaught what)
        | .ok backend => do
            validateTier1LocalBackend w spec backend
            return some
              { tier := 1, backend := some backend.name
                model := spec.modelHint <|> backend.models.head?, fallbackChain := [0] }
      else .ok none

/-- `_LOCAL_INDEX_TASK_TYPES`. -/
def localIndexTaskTypes : List String :=
  ["search", "index", "gbrain", "crg", "code_search", "semantic_search"]

/-- `_probe_tier_2`. -/
def probeTier2 (spec : ToolCallSpec) : Option ResolvedRoute :=
  if localIndexTaskTypes.contains spec.taskType then
    some
      { tier := 2
        backend :=
          some (if ["gbrain", "semantic_search"].contains spec.taskType then "gbrain" else "crg")
        model := spec.modelHint, fallbackChain := [0, 1] }
  else none

/-- The probes in order, each run only when the ones before it have missed. -/
def firstRoute (w : Surroundings) (spec : ToolCallSpec) :
    List (ℤ × Except Raised (Option ResolvedRoute)) → Except Raised (Option ResolvedRoute)
  | [] => .ok none
  | (tier, probe) :: probes =>
      if maxAllowedTier (spec.request w) < tier then firstRoute w spec probes
      else
        match probe with
        | .error e => .error e
        | .ok none => firstRoute w spec probes
        | .ok (some route) => do
            enforceTierPolicy w route.tier spec
            emitTrace w
            return some route

/-! ## Escalation -/

/-- A text that is not given or empty is no reason. -/
def given (reason : Option String) : Bool := reason.any fun s => s != ""

def backendByTier (tier : ℤ) : Option String :=
  if tier = 3 then some "huggingface_free"
  else if tier = 4 then some "free_proprietary"
  else if tier = 5 then some "openrouter"
  else if tier = 6 then some "grok"
  else none

/-- `_escalation_route`. -/
def escalationRoute (w : Surroundings) (spec : ToolCallSpec) (tier : ℤ) :
    Except Raised ResolvedRoute :=
  if 3 ≤ tier ∧ given spec.escalationReason = false then
    .error (.frugalityPolicyError "escalation_reason is required when tier >= 3")
  else do
    enforceTierPolicy w tier spec
    return {
      tier := tier, backend := backendByTier tier, model := spec.modelHint
      estCostUsd := if tier ≤ 2 then 0 else max spec.estTokens 1 / 1000
      fallbackChain := (List.range tier.toNat).map Int.ofNat
      escalationReason := spec.escalationReason }

/-- `resolve_route`. -/
def resolveRoute (w : Surroundings) (spec : ToolCallSpec) (registry : Option Registry)
    (escalationTier : Option ℤ) : Except Raised ResolvedRoute := do
  let probed ← firstRoute w spec
    [(0, .ok (probeTier0 spec)), (1, probeTier1 w spec registry), (2, .ok (probeTier2 spec))]
  match probed with
  | some route => return route
  | none =>
      let target := escalationTier.getD 3
      if target ≤ 2 then
        .error (.frugalityPolicyError ("cannot escalate to tier " ++ toString target ++
          "; tiers 0-2 require probe match"))
      else do
        enforceTierPolicy w target spec
        let route ← escalationRoute w spec target
        emitTrace w
        return route

/-! ## The gate -/

/-- The arguments of `consult_gate`. -/
structure Call where
  taskType : String
  preferredDevice : Option String := none
  privacyCritical : Bool := false
  modelHint : Option String := none
  frugalityTier : Option ℤ := none
  estTokens : ℤ := 0
  registry : Option Registry := none
  escalationReason : Option String := none
  escalationTier : Option ℤ := none
  overrideConfirmed : Bool := false
  overrideReason : Option String := none

def Call.request (w : Surroundings) (c : Call) : Request where
  offline := w.offline
  privacyCritical := c.privacyCritical
  overrideConfirmed := c.overrideConfirmed
  overrideReason := c.overrideReason

def Call.spec (c : Call) : ToolCallSpec where
  taskType := c.taskType
  modelHint := c.modelHint
  estTokens := c.estTokens
  privacyCritical := c.privacyCritical
  escalationReason := c.escalationReason
  windowsOnly :=
    c.preferredDevice.any fun device => decide ("win".toList <:+: device.toLower.toList)

/-- The spec of a confirmed override: the flag of the privacy ceiling is cleared. -/
def Call.relaxedSpec (c : Call) : ToolCallSpec :=
  { c.spec with
    privacyCritical := false
    escalationReason := if given c.escalationReason then c.escalationReason else c.overrideReason }

/-- The requested tier, where it is past the default ceiling. -/
def Call.escalationPastCeiling (w : Surroundings) (c : Call) : Option ℤ :=
  c.escalationTier.filter fun tier => maxAllowedTier (c.request w) < tier

/-- A `FrugalityPolicyError` becomes a denial; other exceptions propagate. -/
def decided : Except Raised ResolvedRoute → Except Raised GateDecision
  | .ok route => .ok { hasRoute := true, route := some route }
  | .error (.frugalityPolicyError message) =>
      .ok { hasRoute := false, deniedReason := some message }
  | .error e => .error e

def Call.denied (w : Surroundings) (c : Call) (tier : ℤ) (offline : Bool) : GateDecision where
  hasRoute := false
  deniedReason := some (overrideRequiredReason tier (maxAllowedTier (c.request w)) offline)

/-- `_consult_by_resolve_route`. -/
def consultByResolveRoute (w : Surroundings) (c : Call) : Except Raised GateDecision :=
  match c.escalationPastCeiling w with
  | some tier =>
      if (c.request w).hasOverride = false then .ok (c.denied w tier false)
      else if w.offline then .ok (c.denied w tier true)
      else decided (resolveRoute w c.relaxedSpec c.registry c.escalationTier)
  | none => decided (resolveRoute w c.spec c.registry c.escalationTier)

/-- `consult_gate`. -/
def consultGate (w : Surroundings) (c : Call) : Except Raised GateDecision :=
  match c.frugalityTier with
  | some tier => .ok (consultByKnownTier (c.request w) tier c.modelHint)
  | none =>
      match c.registry with
      | none => .ok { hasRoute := false }
      | some _ => consultByResolveRoute w c

/-- `filter_chain_by_gate`, over candidates with an optional `frugality_tier`. -/
def filterChainByGate {α : Type*} (r : Request) (frugalityTier : α → Option ℤ) (chain : List α) :
    List α :=
  chain.filter fun candidate => (gatePermits r (frugalityTier candidate)).1

end Router

end Perpetua.Gate

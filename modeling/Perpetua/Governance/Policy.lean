import Mathlib.Data.Int.Notation
import Mathlib.Data.List.Infix
import Perpetua.Lib.Except
import Perpetua.Lib.OrderedDict
import Perpetua.Lib.PyText

/-!
# Model governance

The model of `plan_launch` and `assert_launch_allowed` over the pins of `model-governance.yml`. The
two call each other; `depth` is what is left of the interpreter's stack.
-/

namespace Perpetua.Governance

/-! ## Pins -/

/-- The parameters of a row. -/
structure Row where
  effort : Option String := none
  reasoningEffort : Option String := none
  allowedEfforts : Option (List String) := none
  fast : Option Bool := none
  requires : List String := []
  deriving DecidableEq

/-- A row that names a model. -/
structure Pin extends Row where
  launchId : String
  legacyPin : Option String := none
  deriving DecidableEq

structure Provider where
  default : Pin
  controller : Option Pin := none
  planning : Option Pin := none
  allowedUngated : List Pin := []
  gated : List (String × Row) := []

structure Config where
  bannedLaunchIds : List String
  cursorGrokBot : Provider
  anthropic : Provider
  directXai : Provider
  openai : Provider
  google : Provider

/-- `config/model-governance.yml`. -/
def checkedIn : Config where
  bannedLaunchIds := ["gpt-6-astra", "grok-4.5", "grok-4.6"]
  cursorGrokBot := {
    default := { launchId := "grok-4.7", effort := "medium", fast := false }
    allowedUngated := [
      { launchId := "composer-2.5", fast := false },
      { launchId := "gpt-5.6-terra", effort := "medium", fast := false }] }
  anthropic := {
    default := {
      launchId := "claude-sonnet-5-5", legacyPin := "claude-sonnet-5", effort := "medium" }
    controller := some { launchId := "claude-haiku-5-5", effort := "medium", fast := false }
    planning := some {
      launchId := "claude-opus-5-5", effort := "high", allowedEfforts := some ["medium", "high"]
      fast := false }
    gated := [
      ("claude-opus-5-5", {
        effort := "medium", allowedEfforts := some ["medium", "high"], fast := false
        requires := ["escalation_token"] }),
      ("claude-fable-5-1", {
        effort := "medium", requires := ["escalation_token", "budget_cap"] })] }
  directXai := {
    default := { launchId := "grok-4.7", reasoningEffort := "medium", fast := false } }
  openai := {
    default := { launchId := "gpt-5.6-terra", effort := "medium", fast := false }
    controller := some { launchId := "gpt-6-luna", effort := "medium", fast := false }
    planning := some { launchId := "gpt-6.1-sol", effort := "medium", fast := false } }
  google := {
    default := { launchId := "gemini-3.8-flash", effort := "medium", fast := false } }

/-! ## Requests -/

structure LaunchSpec where
  path : String
  launchId : String
  effort : Option String := none
  fast : Option Bool := none
  reasoningEffort : Option String := none
  agent : Bool := true
  deriving DecidableEq

/-- A `datetime`, in microseconds. -/
structure DateTime where
  aware : Bool
  instant : ℤ
  deriving DecidableEq

structure EscalationProof where
  kind : String
  reference : String
  modelId : String
  expiresAt : DateTime
  effort : Option String := none
  fast : Option Bool := none
  budgetCap : Option String := none
  path : Option String := none
  scope : Option String := none
  deriving DecidableEq

/-- What a call brings along for an escalation. -/
structure Approval where
  proof : Option EscalationProof := none
  now : Option DateTime := none
  /-- `datetime.now(timezone.utc)`. -/
  wallClock : ℤ := 0
  approvalScope : Option String := none
  deriving DecidableEq

structure LaunchPlan where
  requested : LaunchSpec
  effective : LaunchSpec
  requiresHumanApproval : Bool
  reason : String
  requestedMode : String := "standard"
  effectiveMode : String := "standard"
  approvalCandidate : Option LaunchSpec := none
  deriving DecidableEq

inductive PolicyError
  | modelGovernanceError (message : String)
  | keyError
  | typeError
  | recursionError
  deriving DecidableEq

def refuse {α : Type} (message : String) : Except PolicyError α :=
  .error (.modelGovernanceError message)

/-- `row[key]`. -/
def required {α : Type} : Option α → Except PolicyError α
  | some a => .ok a
  | none => .error .keyError

/-! ## Efforts -/

/-- `_refuse_forbidden_effort`: the first forbidden effort, if there is one. -/
def forbiddenEffort? (spec : LaunchSpec) : Option String :=
  [spec.effort, spec.reasoningEffort].findSome? fun effort =>
    effort.filter fun e => e = "xhigh" ∨ e = "max"

/-- `_assert_effort_aliases_consistent`. -/
def effortsConflict (spec : LaunchSpec) : Bool :=
  spec.effort.isSome && spec.reasoningEffort.isSome && spec.effort != spec.reasoningEffort

/-- `_named_effort`. -/
def namedEffort (spec : LaunchSpec) : Option String :=
  match spec.effort with
  | none | some "" => spec.reasoningEffort
  | some effort => some effort

/-- `_assert_gated_params`. -/
def assertGatedParams (spec : LaunchSpec) (row : Row) : Except PolicyError Unit :=
  match row.effort with
  | some wanted =>
      if namedEffort spec ∉ (row.allowedEfforts.getD [wanted]).map some then
        refuse (spec.launchId ++ " requires effort " ++ wanted ++ " (set explicitly)")
      else fastMatches
  | none => fastMatches
where
  fastMatches : Except PolicyError Unit :=
    match row.fast with
    | some fast =>
        if spec.fast ≠ some fast then
          refuse (spec.launchId ++ " requires fast=" ++ if fast then "True" else "False")
        else .ok ()
    | none => .ok ()

/-! ## Tokens -/

def allowedProofKinds : List String :=
  ["github_verified_signoff", "offline_gpg", "control_plane_online_signer"]

def forbiddenProofKinds : List String :=
  ["config_flag", "env_var", "agent_writable_file", "cached_approval"]

/-- `MAX_TOKEN_TTL`. -/
def maxTokenTtl : ℤ := 24 * 60 * 60 * 1000000

/-- The clock of the call, and the wall clock without one. -/
def Approval.clock (a : Approval) : DateTime := a.now.getD ⟨true, a.wallClock⟩

/-- `proof_is_token`; an expiry without a zone is UTC, and an aware and a naive time do not
compare. -/
def proofIsToken (a : Approval) : Except PolicyError Bool :=
  match a.proof with
  | none => .ok false
  | some proof =>
      if proof.kind ∈ forbiddenProofKinds then .ok false
      else if proof.kind ∉ allowedProofKinds then .ok false
      else if PyText.blank proof.reference then .ok false
      else if a.clock.aware = false then .error .typeError
      else if a.clock.instant + maxTokenTtl < proof.expiresAt.instant then .ok false
      else if proof.expiresAt.instant ≤ a.clock.instant then .ok false
      else .ok true

/-- `_token_covers`. -/
def tokenCovers (spec : LaunchSpec) (a : Approval) : Except PolicyError Bool := do
  let fresh ← proofIsToken a
  match fresh, a.proof with
  | true, some proof =>
      return proof.modelId = spec.launchId && proof.effort = namedEffort spec &&
        (proof.fast == some true) == (spec.fast == some true) &&
        (proof.path = none || proof.path = some spec.path) && proof.scope = a.approvalScope
  | _, _ => return false

/-- `if not _token_covers(...): raise`. -/
def requireToken (spec : LaunchSpec) (a : Approval) (message : String) : Except PolicyError Unit := do
  if ← tokenCovers spec a then .ok () else refuse message

/-! ## Launches -/

/-- `str.startswith("claude-")`. -/
def isClaude (launchId : String) : Bool := "claude-".toList.isPrefixOf launchId.toList

/-- `_anthropic_ungated_ids`. -/
def anthropicUngatedIds (cfg : Config) : List String :=
  cfg.anthropic.default.launchId ::
    (cfg.anthropic.default.legacyPin.filter fun pin => pin ≠ "").toList

/-- `_assert_anthropic_launch`. -/
def assertAnthropicLaunch (cfg : Config) (spec : LaunchSpec) (a : Approval) :
    Except PolicyError Unit :=
  if spec.fast = some true then refuse "fast mode is unsupported for this Anthropic policy"
  else if spec.launchId ∈ anthropicUngatedIds cfg then
    if namedEffort spec ≠ some "medium" then
      refuse "Sonnet default is medium effort, set explicitly"
    else .ok ()
  else
    match Entries.get? cfg.anthropic.gated spec.launchId with
    | none => refuse "cloud escalation default-deny: unlisted Anthropic model"
    | some row => do
        requireToken spec a "cloud escalation default-deny: escalation token required"
        assertGatedParams spec row
        if "budget_cap" ∈ row.requires ∧
            !(a.proof.any fun proof => proof.budgetCap.any fun cap => cap ≠ "") then
          refuse "Fable requires a hard budget cap on the escalation approval"
        else .ok ()

/-- `_ungated_cursor_row`. -/
def ungatedCursorRow (cfg : Config) (launchId : String) : Option Pin :=
  (cfg.cursorGrokBot.default :: cfg.cursorGrokBot.allowedUngated).find? (·.launchId = launchId)

/-- `_assert_cursor_launch`. -/
def assertCursorLaunch (cfg : Config) (spec : LaunchSpec) (a : Approval) :
    Except PolicyError Unit :=
  if isClaude spec.launchId then assertAnthropicLaunch cfg spec a
  else if spec.launchId = cfg.cursorGrokBot.default.launchId then
    assertGatedParams spec cfg.cursorGrokBot.default.toRow
  else if spec.fast = some true then
    if spec.launchId = "composer-2.5" then
      requireToken spec a "fast mode requires an operator request plus a real escalation token"
    else refuse "fast mode requires an operator request plus a real escalation token"
  else do
    if namedEffort spec ≠ none ∧ namedEffort spec ≠ some "medium" then
      requireToken spec a "non-medium effort requires an escalation token"
    else .ok ()
    match ungatedCursorRow cfg spec.launchId with
    | some pin => assertGatedParams spec pin.toRow
    | none =>
        match Entries.get? cfg.cursorGrokBot.gated spec.launchId with
        | some row => do
            requireToken spec a "cloud escalation default-deny: escalation token required"
            assertGatedParams spec row
        | none => requireToken spec a "cloud escalation default-deny: unlisted Cursor model"

/-- `_assert_direct_xai_launch`. -/
def assertDirectXaiLaunch (cfg : Config) (spec : LaunchSpec) : Except PolicyError Unit :=
  if spec.launchId ≠ cfg.directXai.default.launchId then
    refuse "direct-xAI launch is default-deny without a listed default"
  else do
    let wanted ← required cfg.directXai.default.reasoningEffort
    if namedEffort spec ≠ some wanted then
      refuse "direct-xAI default is grok-4.7 with reasoning_effort medium"
    else if spec.fast = some true then
      refuse ("direct-xAI fast mode is refused here; it requires a one-use P5 operator " ++
        "approval enforced at the trusted dispatch boundary")
    else .ok ()

/-- `default_launch`. -/
def defaultLaunch (cfg : Config) (path : String) : Except PolicyError LaunchSpec :=
  if path = "cursor_grok_bot" then do
    let row := cfg.cursorGrokBot.default
    let effort ← required row.effort
    let fast ← required row.fast
    return { path, launchId := row.launchId, effort := effort, fast := fast }
  else if path = "direct_xai" then do
    let row := cfg.directXai.default
    let effort ← required row.reasoningEffort
    return { path, launchId := row.launchId, reasoningEffort := effort
             fast := some (row.fast.getD false) }
  else
    let pinned := fun (row : Pin) => do
      let effort ← required row.effort
      return { path, launchId := row.launchId, effort := some effort, fast := row.fast }
    if path = "anthropic" then pinned cfg.anthropic.default
    else if path = "openai" then pinned cfg.openai.default
    else if path = "google" then pinned cfg.google.default
    else refuse "unknown harness path"

/-- The provider whose pins decide a launch: claude ids on the Cursor path follow Anthropic's. -/
def providerOf (spec : LaunchSpec) : String :=
  if spec.path = "cursor_grok_bot" ∧ isClaude spec.launchId then "anthropic" else spec.path

def Config.provider? (cfg : Config) (name : String) : Option Provider :=
  if name = "anthropic" then some cfg.anthropic
  else if name = "openai" then some cfg.openai
  else if name = "google" then some cfg.google
  else if name = "cursor_grok_bot" then some cfg.cursorGrokBot
  else if name = "direct_xai" then some cfg.directXai
  else none

def knownTaskKind (taskKind : Option String) : Bool :=
  taskKind = none || taskKind = some "planning" || taskKind = some "execution"

/-- The row of the role that the model has, planning before controller. -/
def Provider.role? (policy : Provider) (launchId : String) : Option Pin :=
  (policy.planning.filter (·.launchId = launchId)).or
    (policy.controller.filter (·.launchId = launchId))

def Provider.isPlanning (policy : Provider) (launchId : String) : Bool :=
  policy.planning.any (·.launchId = launchId)

/-- What `plan_launch` checks before it selects. `check` is
`assert_launch_allowed(spec, config=cfg)`. -/
def assertPlannable (policy : Provider) (spec : LaunchSpec)
    (check : Except PolicyError Unit) : Except PolicyError Unit :=
  match policy.role? spec.launchId with
  | some pin =>
      let allowedEfforts := (pin.allowedEfforts.map (·.map some)).getD [pin.effort]
      if namedEffort spec ∉ allowedEfforts then
        refuse "role requires an explicitly permitted effort"
      else assertGatedParams spec { pin.toRow with effort := namedEffort spec }
  | none =>
      match Entries.get? policy.gated spec.launchId with
      | some row => assertGatedParams spec row
      | none =>
          if providerOf spec = "openai" ∨ providerOf spec = "google" then
            if spec.launchId ≠ policy.default.launchId then refuse "unlisted role model"
            else assertGatedParams spec policy.default.toRow
          else check

/-- What `plan_launch` selects. -/
def selectPlan (cfg : Config) (policy : Provider) (spec : LaunchSpec) (taskKind : Option String)
    (mode : String) : Except PolicyError LaunchPlan :=
  let planning := policy.isPlanning spec.launchId
  let escalates := planning && taskKind ≠ some "planning"
  let gated := (Entries.get? policy.gated spec.launchId).isSome
  if mode = "ultracode" ∨ escalates ∨ (gated ∧ !planning) then do
    let fallback ← defaultLaunch cfg (providerOf spec)
    let candidate :=
      if escalates then { spec with effort := some "medium", reasoningEffort := none } else spec
    return {
      requested := spec, effective := { fallback with path := spec.path }
      requiresHumanApproval := true, reason := "human_approval_required", requestedMode := mode
      approvalCandidate := some candidate }
  else
    .ok {
      requested := spec, effective := spec, requiresHumanApproval := false
      reason := if planning then "planning" else "allowed" }

/-- `plan_launch`, over the check it calls. -/
def planWith (cfg : Config) (spec : LaunchSpec) (taskKind : Option String) (mode : String)
    (check : Except PolicyError Unit) : Except PolicyError LaunchPlan :=
  if !knownTaskKind taskKind then refuse "unsupported harness task kind"
  else if mode ≠ "standard" ∧ mode ≠ "ultracode" then refuse "unsupported orchestration mode"
  else
    match forbiddenEffort? spec with
    | some effort => refuse ("effort is forbidden: " ++ effort)
    | none =>
        if effortsConflict spec then refuse "conflicting effort fields"
        else if spec.launchId ∈ cfg.bannedLaunchIds then
          refuse ("banned launch id: " ++ spec.launchId)
        else
          match cfg.provider? (providerOf spec) with
          | none => refuse "unknown harness path"
          | some policy => do
              assertPlannable policy spec check
              selectPlan cfg policy spec taskKind mode

/-- `assert_launch_allowed` past its common checks, over the plan it calls. -/
def assertPath (cfg : Config) (spec : LaunchSpec) (a : Approval) (taskKind : Option String)
    (plan : Except PolicyError LaunchPlan) : Except PolicyError Unit :=
  if spec.path = "openai" ∨ spec.path = "google" then do
    let plan ← plan
    if plan.requiresHumanApproval then
      requireToken spec a "cloud escalation default-deny: escalation token required"
    else .ok ()
  else if (spec.path = "anthropic" ∨ spec.path = "cursor_grok_bot") ∧
      (cfg.anthropic.controller.any (·.launchId = spec.launchId) ∨
        cfg.anthropic.isPlanning spec.launchId ∧ taskKind = some "planning") then do
    let _ ← plan
    return ()
  else if spec.path = "cursor_grok_bot" then assertCursorLaunch cfg spec a
  else if spec.path = "anthropic" then assertAnthropicLaunch cfg spec a
  else if spec.path = "direct_xai" then assertDirectXaiLaunch cfg spec
  else refuse "unknown harness path"

/-- A proof that is presented has to cover the launch, also where none is needed. -/
def checkPresented (spec : LaunchSpec) (a : Approval) : Except PolicyError Unit :=
  if a.proof.isSome then
    requireToken spec a ("cloud escalation default-deny: proof expired or " ++
      "model/effort/fast/path/scope mismatch")
  else .ok ()

/-- `assert_launch_allowed`, over the plan it calls. -/
def assertWith (cfg : Config) (spec : LaunchSpec) (a : Approval) (taskKind : Option String)
    (plan : Except PolicyError LaunchPlan) : Except PolicyError Unit :=
  if !knownTaskKind taskKind then refuse "unsupported harness task kind"
  else
    match forbiddenEffort? spec with
    | some effort => refuse ("effort is forbidden: " ++ effort)
    | none =>
        if effortsConflict spec then refuse "conflicting effort fields"
        else if spec.launchId ∈ cfg.bannedLaunchIds then
          refuse ("banned launch id: " ++ spec.launchId)
        else if (spec.launchId = "auto" ∨ spec.launchId = "default") ∧ spec.agent then
          refuse "auto is editor-only; never for agents"
        else do
          checkPresented spec a
          assertPath cfg spec a taskKind plan

mutual

/-- `plan_launch`. -/
def planLaunch (cfg : Config) (spec : LaunchSpec) (taskKind : Option String) (mode : String) :
    ℕ → Except PolicyError LaunchPlan
  | 0 => .error .recursionError
  | depth + 1 => planWith cfg spec taskKind mode (assertLaunchAllowed cfg spec {} none depth)

/-- `assert_launch_allowed`. -/
def assertLaunchAllowed (cfg : Config) (spec : LaunchSpec) (a : Approval)
    (taskKind : Option String) : ℕ → Except PolicyError Unit
  | 0 => .error .recursionError
  | depth + 1 => assertWith cfg spec a taskKind (planLaunch cfg spec taskKind "standard" depth)

end

end Perpetua.Governance

import Mathlib.Data.List.Infix
import Perpetua.Lib.Json
import Perpetua.Lib.OrderedDict
import Perpetua.Lib.PyText

/-!
# Dispatching a job

The model of the routing in `orchestrator/supervisor.py` and `orchestrator/worker_registry.py`, of
`utils/dispatch_models.py` and of the affinity check of `utils/hardware_policy.py`: from a submitted job to
the model that a worker posts to an inference server.
-/

namespace Perpetua.Supervisor.Dispatch

open Json (Value)
open PyText (strip)

/-! ## Parameters -/

/-- Operations of Python. -/
structure PyRuntime where
  /-- `str.lower`. -/
  lower : String → String
  /-- `str` of a value that is no string. -/
  repr : Value → String

/-- The variables that name default models; none where a variable is not set. -/
structure ModelEnv where
  macLmsModel : Option String := none
  lmsMacModel : Option String := none
  ollamaMacModel : Option String := none
  windowsCoderModel : Option String := none
deriving DecidableEq

/-- The lists of the policy file, with the aliases in them. -/
structure Policy where
  windowsOnly : List String
  macOnly : List String

abbrev Metadata := List (String × Value)

/-- `JobSpec`, as far as the routing reads it. -/
structure JobSpec where
  intent : String := ""
  backendHint : Option String := none
  metadata : Metadata := []
  role : Option String := none
  specialization : Option String := none

/-- What raises besides the resolution of a model. -/
structure Guards where
  /-- `submit_job` raises at the depth of the job or at the thread ceiling. -/
  overLimit : JobSpec → Bool
  /-- `_try_skill_envelope`: whether there is an envelope; none where it raises. -/
  skillEnvelope : JobSpec → Option Bool
  /-- A worker raises before it posts: a constraint that is no number, no endpoint on Windows, a
  command line worker that is not allowed. -/
  stops : String → JobSpec → Bool

/-! ## Routing -/

def windowsQwenPriorityModel : String := "qwen3.5-27b-claude-4.6-opus-reasoning-distilled-v2"

/-- `ROLE_BACKEND_MAP`. -/
def roleBackendMap : List ((String × Option String) × (String × String)) :=
  [(("coder", none), "lmstudio-win", windowsQwenPriorityModel),
    (("priority-subagent", none), "lmstudio-win", windowsQwenPriorityModel),
    (("subagent", none), "lmstudio-win", windowsQwenPriorityModel),
    (("executor-agent", some "python-coding"), "lmstudio-win", windowsQwenPriorityModel),
    (("executor-agent", some "test-writing"), "lmstudio-win", windowsQwenPriorityModel),
    (("executor-agent", none), "lmstudio-win", windowsQwenPriorityModel),
    (("context-agent", some "market-research"), "ollama", "qwen3.5:9b-mlx"),
    (("context-agent", some "m&a-research"), "ollama", "qwen3.5:9b-mlx"),
    (("context-agent", none), "ollama", "qwen3.5:9b-mlx"),
    (("verifier-agent", none), "lmstudio-win", windowsQwenPriorityModel),
    (("crystallizer-agent", none), "ollama", "qwen3.5:9b-mlx"),
    (("architect-agent", none), "lmstudio-win", windowsQwenPriorityModel),
    (("refiner-agent", none), "ollama", "qwen3.5:9b-mlx")]

/-- `resolve_role_backend`. -/
def resolveRoleBackend (role : String) (specialization : Option String) : Option (String × String) :=
  match Entries.get? roleBackendMap (role, specialization) with
  | some pair => some pair
  | none => if specialization.isSome then Entries.get? roleBackendMap (role, none) else none

/-- `_INTENT_BACKEND_MAP`. -/
def intentBackendMap : List (String × String) :=
  [("code-review", "codex"), ("debug", "codex"), ("ml-experiment", "gemini"), ("research", "gemini"),
    ("freeform", "ollama"), ("echo", "echo"), ("agy-research", "agy"), ("agy-freeform", "agy")]

/-- `resolve_backend`. -/
def resolveBackend (spec : JobSpec) : String :=
  match spec.backendHint.filter fun hint => hint ≠ "" && hint ≠ "auto" with
  | some hint => hint
  | none =>
      match (spec.role.filter (· ≠ "")).bind (resolveRoleBackend · spec.specialization) with
      | some pair => pair.1
      | none => (Entries.get? intentBackendMap spec.intent).getD "echo"

/-- The names of `WORKER_REGISTRY`. -/
def workerRegistry : List String :=
  ["echo", "ollama", "ollama-mac", "lmstudio-mac", "lmstudio-win", "codex", "gemini", "agy"]

/-- `_MAC_LOCAL_BACKENDS`. -/
def macLocalBackends : List String := ["ollama", "ollama-mac", "lmstudio-mac", "mlx"]

/-! ## Models -/

section Models

variable (py : PyRuntime)

def PyRuntime.str : Value → String
  | .str s => s
  | v => py.repr v

def normalizeBackend (backend : String) : String := strip (py.lower backend)

/-- `backend_requires_dispatch_model`. -/
def backendRequiresDispatchModel (backend : String) : Bool :=
  ["ollama", "ollama-mac", "lmstudio-mac", "lmstudio-win", "mlx"].contains (normalizeBackend py backend)

/-- `str(meta.get("model") or "").strip()`. -/
def explicitModel (metadata : Metadata) : String :=
  match (Entries.get? metadata "model").filter Value.truthy with
  | some v => strip (py.str v)
  | none => strip ""

/-- `or` of strings. -/
def orElse (a : Option String) (b : String) : String := (a.filter (· ≠ "")).getD b

def ModelEnv.macLmstudioDefaultModel (env : ModelEnv) : String :=
  orElse env.macLmsModel (orElse env.lmsMacModel "Qwen3.5-9B-MLX-4bit")

def ModelEnv.ollamaMacDefaultModel (env : ModelEnv) : String := env.ollamaMacModel.getD "qwen3.5:9b-mlx"

def ModelEnv.lmstudioWinDefaultModel (env : ModelEnv) : String :=
  env.windowsCoderModel.getD "Qwen3.5-27B-Claude-4.6-Opus-Reasoning-Distilled-v2"

/-- `_role_mapped_model`. -/
def roleMappedModel (backend : String) (role specialization targetPlatform : Option String) :
    Option String :=
  match (role.filter (· ≠ "")).bind (resolveRoleBackend · specialization) with
  | none => none
  | some (mappedBackend, mappedModel) =>
      let mapped := normalizeBackend py mappedBackend
      let norm := normalizeBackend py backend
      if targetPlatform = some "win" ∧ mapped = "lmstudio-win" then some mappedModel
      else if mapped = norm ∨ (["ollama", "ollama-mac"].contains norm ∧ mapped = "ollama") then
        some mappedModel
      else none

/-- The default that the backend has; none where that raises. -/
def defaultModel (env : ModelEnv) (backend : String) (targetPlatform : Option String) : Option String :=
  let norm := normalizeBackend py backend
  let plat := strip (py.lower (targetPlatform.getD ""))
  if plat = "win" ∨ norm = "lmstudio-win" then some env.lmstudioWinDefaultModel
  else if ["ollama", "ollama-mac", "mlx"].contains norm then some env.ollamaMacDefaultModel
  else if norm = "lmstudio-mac" then
    let default := env.macLmstudioDefaultModel
    if strip default = "" then none else some default
  else none

/-- `resolve_dispatch_model`; none where it raises `ValueError`. -/
def resolveDispatchModel (env : ModelEnv) (backend : String) (metadata : Metadata)
    (role specialization targetPlatform : Option String) : Option String :=
  if explicitModel py metadata ≠ "" then some (explicitModel py metadata)
  else
    match (roleMappedModel py backend role specialization targetPlatform).filter (· ≠ "") with
    | some model => some model
    | none => defaultModel py env backend targetPlatform

/-- `ensure_metadata_model`. -/
def ensureMetadataModel (env : ModelEnv) (backend : String) (metadata : Metadata)
    (role specialization targetPlatform : Option String) : Option Metadata :=
  if explicitModel py metadata ≠ "" then some metadata
  else (resolveDispatchModel py env backend metadata role specialization targetPlatform).map fun model =>
    Entries.set metadata "model" (.str model)

/-- `check_affinity`, which raises where this is false. -/
def checkAffinity (policy : Policy) (modelId platform : String) : Bool :=
  let normalized := strip (py.lower platform)
  if ["mac", "macos", "darwin", "apple", "mac-studio", "lmstudio-mac"].contains normalized then
    !(policy.windowsOnly.map py.lower).contains (py.lower modelId)
  else if ["win", "windows", "win32", "win-rtx3080", "win-rtx5080", "lmstudio-win", "ollama-win"].contains
      normalized then
    !(policy.macOnly.map py.lower).contains (py.lower modelId)
  else true

/-- `_backend_to_platform`. -/
def backendToPlatform (backend : String) : String :=
  if "win".toList <:+: (py.lower backend).toList then "win" else "mac"

/-! ## The supervisor -/

/-- What the environment holds where it is read: in `ensure_metadata_model`, in the check behind it, and
in the worker. -/
structure Reads where
  atEnsure : ModelEnv
  atCheck : ModelEnv
  atWorker : ModelEnv

/-- `_prepare_spec_for_inference`; none where it raises. -/
def prepareSpecForInference (policy : Policy) (reads : Reads) (spec : JobSpec) (backend : String)
    (affinityPlatform : Option String) : Option JobSpec :=
  if !backendRequiresDispatchModel py backend then some spec
  else
    let plat := orElse affinityPlatform (backendToPlatform py backend)
    let winTarget := if plat = "win" then some plat else none
    (ensureMetadataModel py reads.atEnsure backend spec.metadata spec.role spec.specialization
        winTarget).bind fun metadata =>
      (resolveDispatchModel py reads.atCheck backend metadata spec.role spec.specialization
          winTarget).bind fun modelId =>
        if checkAffinity py policy modelId plat then some { spec with metadata } else none

/-- What a worker does: it posts a model to its server, or it posts none. -/
structure Posted where
  worker : String
  model : Option String
  /-- `_win_endpoint`, for the Windows worker. -/
  winEndpoint : Option Value := none
  /-- The flag of the result, if the worker returns one. -/
  routedToWindows : Bool := false

/-- The backend under which a worker resolves its model, and its target platform. -/
def workerBackend : String → Option (String × Option String)
  | "ollama" => some ("ollama-mac", none)
  | "ollama-mac" => some ("ollama-mac", none)
  | "lmstudio-mac" => some ("lmstudio-mac", none)
  | "lmstudio-win" => some ("lmstudio-win", some "win")
  | _ => none

/-- A worker of the registry: what it posts, or none where it raises before that. One that posts nothing
counts as posting its answer. -/
def runWorker (guards : Guards) (env : ModelEnv) (worker : String) (spec : JobSpec) : Option Posted :=
  if guards.stops worker spec then none
  else
    match workerBackend worker with
    | none => some { worker, model := none }
    | some (backend, target) =>
        (resolveDispatchModel py env backend spec.metadata spec.role spec.specialization target).map
          fun model =>
            { worker, model := some model
              winEndpoint :=
                if worker = "lmstudio-win" then
                  (Entries.get? spec.metadata "_win_endpoint").filter Value.truthy
                else none }

/-- `_dispatch` behind the skills, with the endpoint that the probe of the Windows pool has found; none
where it raises before a post. -/
def dispatchBackend (guards : Guards) (policy : Policy) (reads : Reads) (winUrl : Option String)
    (spec : JobSpec) : Option Posted :=
  let backend := resolveBackend spec
  let worker := if workerRegistry.contains backend then backend else "echo"
  let normal :=
    (if backendRequiresDispatchModel py backend then
        prepareSpecForInference py policy reads spec backend none
      else some spec).bind (runWorker py guards reads.atWorker worker)
  if macLocalBackends.contains backend || backend = "lmstudio-win" then
    match winUrl with
    | none => normal
    | some url =>
        (prepareSpecForInference py policy reads spec "lmstudio-win" (some "win")).bind fun spec =>
          (runWorker py guards reads.atWorker "lmstudio-win"
            { spec with metadata := Entries.set spec.metadata "_win_endpoint" (.str url) }).map
              fun posted => { posted with routedToWindows := macLocalBackends.contains backend }
  else normal

/-- What a dispatched job comes to, unless it raises before that. -/
inductive Dispatched
  | skillEnvelope
  | worker (posted : Posted)

/-- `_dispatch`; none where it raises before a post. -/
def dispatch (guards : Guards) (policy : Policy) (reads : Reads) (winUrl : Option String)
    (spec : JobSpec) : Option Dispatched :=
  (guards.skillEnvelope spec).bind fun found =>
    if found then some .skillEnvelope
    else (dispatchBackend py guards policy reads winUrl spec).map .worker

/-- The gate of `submit_job`: the job that it queues, or none where it raises. -/
def submitJob (guards : Guards) (policy : Policy) (env : ModelEnv) (spec : JobSpec) : Option JobSpec :=
  let spec := { spec with metadata := Entries.erase spec.metadata "_win_endpoint" }
  let backend := resolveBackend spec
  if guards.overLimit spec then none
  else if backendRequiresDispatchModel py backend then
    (resolveDispatchModel py env backend spec.metadata spec.role spec.specialization none).bind
      fun modelId =>
        if checkAffinity py policy modelId (backendToPlatform py backend) then some spec else none
  else some spec

end Models

end Perpetua.Supervisor.Dispatch

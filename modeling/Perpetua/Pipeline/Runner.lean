import Perpetua.Gate.Policy
import Perpetua.Pipeline.Config

/-!
# Runs of a pipeline

The model of `TieredPipelineRunner.run`. The dispatcher is any function of what has happened so far,
so that it may keep a state of its own; so is the trace file, which may refuse a line. A run returns
its outcome and the list of its events.
-/

namespace Perpetua.Pipeline

open Budget (DispatchResult PipelineResult)

/-! ## Approvals -/

structure DateTime where
  /-- It carries a time zone. -/
  aware : Bool
  micros : ℤ
  deriving DecidableEq, Repr

structure PipelineApproval where
  traceId : String
  approvedBy : String
  purpose : String
  recipe : String
  routeTier : ℤ
  maxTokens : ℤ
  maxCostUsd : Json.Number
  expiresAt : DateTime
  scope : List String := []
  deriving DecidableEq

/-- The file that `PT_PIPELINE_REVOKED_APPROVALS` names. -/
inductive RevocationFile
  | notConfigured
  | unreadable
  /-- Not UTF-8. -/
  | undecodable
  | lines (ls : List String)

/-- The checks that raise `PipelineApprovalError`. -/
inductive ApprovalError
  | required
  | revocationFile
  | revoked
  | naiveExpiry
  | expired
  | blankField
  | recipe
  | routeTier
  | scope
  | tokenBudget
  | costBudget
  | outOfScope (stage : String)
  deriving DecidableEq, Repr

/-- What `run` raises. -/
inductive RunError
  | disabled
  | emptyPrompt
  | config
  | approval (e : ApprovalError)
  | policy (reason : String)
  | inputTokens (stage : String)
  /-- `PipelineExecutionError`. -/
  | execution (stage : String)
  /-- The error of the dispatcher, raised again. -/
  | dispatcher
  | traceFile
  | keyError
  | uncaught (e : PyError)
  deriving DecidableEq, Repr

/-! ## Events -/

/-- The arguments of one call of the dispatcher. -/
structure Dispatch where
  model : String
  prompt : String
  maxTokens : ℕ
  stage : String
  deriving DecidableEq, Repr

/-- What the dispatcher does. -/
inductive Answer
  | returned (result : DispatchResult)
  /-- `PipelineCandidateUnavailableError`. -/
  | unavailable (fallbackSafe : Bool)
  /-- Any other `Exception`. -/
  | failed
  /-- The task is cancelled. -/
  | cancelled
  deriving DecidableEq, Repr

inductive TraceStatus
  | skipped
  | unavailable
  | failed
  | completed
  deriving DecidableEq, Repr

inductive Event
  /-- `_validate_approval` has returned. -/
  | approved
  /-- `gate_permits` has answered yes. -/
  | permitted
  /-- `_stage_prompt` is called with the outputs so far. -/
  | prompt (stage : PipelineStage) (outputs : List (String × String))
  | dispatch (d : Dispatch)
  | answer (d : Dispatch) (a : Answer)
  /-- The output of the stage is recorded. -/
  | complete (stage : PipelineStage) (output : String)
  /-- `_emit_trace` has written its line. -/
  | trace (stage model : String) (status : TraceStatus)
  deriving DecidableEq, Repr

/-! ## One call -/

/-- The arguments of `run`, and what it reads and calls. -/
structure Call where
  recipeName : String
  prompt : String
  approval : Option PipelineApproval
  /-- `PIPELINE_TIERED_ENABLED`. -/
  flag : Option String
  /-- The configuration file, read again. -/
  config : YamlFile
  now : ℤ
  revoked : RevocationFile
  gate : Gate.Request
  dispatch : List Event → Answer
  traceRefused : List Event → Bool

/-- `tiered_pipeline_enabled`. -/
def tieredPipelineEnabled (flag : Option String) (config : YamlFile) : Except RunError Bool :=
  match flag with
  | some value => .ok (PyText.strip value == "1")
  | none =>
      match config with
      | .parsed (.map entries) =>
          .ok (match Yaml.lookup "enabled" entries with | some (.bool b) => b | _ => false)
      | .undecodable => .error (.uncaught .valueError)
      | _ => .ok false

/-- `_load_revoked_trace_ids`. -/
def loadRevokedTraceIds : RevocationFile → Except RunError (List String)
  | .notConfigured => .ok []
  | .unreadable => .error (.approval .revocationFile)
  | .undecodable => .error (.uncaught .valueError)
  | .lines ls => .ok ((ls.filter fun l => !PyText.blank l && !l.startsWith "#").map PyText.strip)

/-- `_validate_approval`. -/
def validateApproval (call : Call) (recipe : PipelineRecipe) : Except RunError PipelineApproval :=
  match call.approval with
  | none => .error (.approval .required)
  | some approval => do
      let revoked ← loadRevokedTraceIds call.revoked
      if approval.traceId ∈ revoked then .error (.approval .revoked)
      else if !approval.expiresAt.aware then .error (.approval .naiveExpiry)
      else if approval.expiresAt.micros ≤ call.now then .error (.approval .expired)
      else if [approval.traceId, approval.approvedBy, approval.purpose].any PyText.blank then
        .error (.approval .blankField)
      else if approval.recipe ≠ call.recipeName then .error (.approval .recipe)
      else if approval.routeTier ≠ pipelineTier then .error (.approval .routeTier)
      else if approval.scope = [] then .error (.approval .scope)
      else if approval.maxTokens < recipe.maxTotalTokens then .error (.approval .tokenBudget)
      else if numberLt approval.maxCostUsd recipe.costReservationUsd then
        .error (.approval .costBudget)
      else .ok approval

/-- `_stage_prompt`. -/
def stagePrompt (original : String) (stage : PipelineStage) (outputs : List (String × String)) :
    Except RunError String := do
  let context ←
    match stage.inputFrom with
    | none => .ok ("Original request:\n" ++ original)
    | some source =>
        match Entries.get? outputs source with
        | none => .error .keyError
        | some text =>
            .ok ("Original request:\n" ++ original ++ "\n\nOutput from stage " ++ source ++ ":\n" ++
              text)
  .ok (if stage.instruction = "" then context else stage.instruction ++ "\n\n" ++ context)

/-- `_emit_trace`: the events after it, if the line is written. -/
def Call.emitTrace (call : Call) (log : List Event) (stage model : String) (status : TraceStatus) :
    Option (List Event) :=
  if call.traceRefused log then none else some (log ++ [.trace stage model status])

/-- A runner exists only over a configuration that was accepted. -/
structure TieredPipelineRunner [PyRuntime] where
  sources : Sources
  loaded : Loaded
  accepted : loadAndValidate sources = .ok loaded

variable [PyRuntime]

/-- `__init__`. -/
def TieredPipelineRunner.init (sources : Sources) : Except LoadError TieredPipelineRunner :=
  match h : loadAndValidate sources with
  | .ok loaded => .ok { sources, loaded, accepted := h }
  | .error e => .error e

namespace TieredPipelineRunner

variable (runner : TieredPipelineRunner)

def recipe (name : String) : Except RunError PipelineRecipe :=
  match Entries.get? runner.loaded.recipes name with
  | some recipe => .ok recipe
  | none => .error .config

/-- `_candidate_backend`. -/
def candidateBackend (model : String) : Except RunError String :=
  match Entries.get? runner.loaded.modelBackends model with
  | some backend => if backend = "" then .error .config else .ok backend
  | none => .error .config

/-- `_candidate_is_in_scope`. -/
def candidateIsInScope (approval : PipelineApproval) (model : String) : Except RunError Bool := do
  let backend ← runner.candidateBackend model
  let allowed := (approval.scope.filter fun item => !PyText.blank item).map fun item =>
    PyRuntime.lower (PyText.strip item)
  .ok (allowed.contains (PyRuntime.lower backend))

/-! ## The candidate loop -/

/-- How the candidate loop of a stage ends. -/
inductive CandidatesEnd
  | served (model : String) (result : DispatchResult)
  /-- No candidate is left. -/
  | exhausted (hasInScopeCandidate : Bool)
  | raised (e : RunError)

/-- The candidate loop over `models`; `log` is what has happened before. -/
def tryCandidates (call : Call) (approval : PipelineApproval) (stage : PipelineStage)
    (prompt : String) : List String → Bool → List Event → CandidatesEnd × List Event
  | [], inScope, log => (.exhausted inScope, log)
  | model :: models, inScope, log =>
      match runner.candidateIsInScope approval model with
      | .error e => (.raised e, log)
      | .ok false =>
          match call.emitTrace log stage.name model .skipped with
          | none => (.raised .traceFile, log)
          | some log => tryCandidates call approval stage prompt models inScope log
      | .ok true =>
          let d : Dispatch := ⟨model, prompt, stage.maxTokens, stage.name⟩
          let a := call.dispatch (log ++ [.dispatch d])
          let log := log ++ [.dispatch d, .answer d a]
          match a with
          | .returned result => (.served model result, log)
          | .unavailable true =>
              match call.emitTrace log stage.name model .unavailable with
              | none => (.raised .traceFile, log)
              | some log => tryCandidates call approval stage prompt models true log
          | .unavailable false | .failed =>
              match call.emitTrace log stage.name model .failed with
              | none => (.raised .traceFile, log)
              | some log => (.raised .dispatcher, log)
          | .cancelled => (.raised .dispatcher, log)

/-! ## The stage loop -/

/-- The accumulators of `run`. -/
structure Progress where
  outputs : List (String × String) := []
  modelsUsed : List (String × String) := []
  requestedTokens : ℕ := 0
  totalTokensUsed : Option ℤ := some 0
  totalCostUsd : Option ℚ := some 0
  deriving DecidableEq, Repr

def Progress.record (p : Progress) (stage : PipelineStage) (model : String) (r : DispatchResult) :
    Progress where
  outputs := Entries.set p.outputs stage.name r.text
  modelsUsed := Entries.set p.modelsUsed stage.name model
  requestedTokens := p.requestedTokens + stage.maxTokens
  totalTokensUsed := p.totalTokensUsed.bind fun t => r.totalTokens.map (t + ·)
  totalCostUsd := p.totalCostUsd.bind fun c => r.costUsd.map (c + ·)

/-- One stage of `recipe` after the stages in `p`. -/
def runStage (call : Call) (approval : PipelineApproval) (recipe : PipelineRecipe)
    (stage : PipelineStage) (p : Progress) (log : List Event) :
    Except RunError Progress × List Event :=
  let log := log ++ [.prompt stage p.outputs]
  match stagePrompt call.prompt stage p.outputs with
  | .error e => (.error e, log)
  | .ok prompt =>
      if recipe.maxInputTokens < prompt.utf8ByteSize then (.error (.inputTokens stage.name), log)
      else
        match runner.tryCandidates call approval stage prompt stage.models false log with
        | (.raised e, log) => (.error e, log)
        | (.exhausted false, log) => (.error (.approval (.outOfScope stage.name)), log)
        | (.exhausted true, log) => (.error (.execution stage.name), log)
        | (.served model result, log) =>
            if PyText.blank result.text then (.error (.execution stage.name), log)
            else
              let log := log ++ [.complete stage result.text]
              match call.emitTrace log stage.name model .completed with
              | none => (.error .traceFile, log)
              | some log => (.ok (p.record stage model result), log)

/-- The stage loop. -/
def runStages (call : Call) (approval : PipelineApproval) (recipe : PipelineRecipe) :
    List PipelineStage → Progress → List Event → Except RunError Progress × List Event
  | [], p, log => (.ok p, log)
  | stage :: stages, p, log =>
      match runner.runStage call approval recipe stage p log with
      | (.error e, log) => (.error e, log)
      | (.ok p, log) => runStages call approval recipe stages p log

/-- `denied_reason or …`. -/
def deniedReason (reason : Option String) : String :=
  (reason.filter (· ≠ "")).getD "canonical frugality gate denied Tier 5"

/-- What `run` returns once every stage is complete. -/
def result (recipe : PipelineRecipe) (p : Progress) : Except RunError PipelineResult :=
  match recipe.stages.getLast?.bind fun stage => Entries.get? p.outputs stage.name with
  | none => .error .keyError
  | some output =>
      .ok { recipe := recipe.name, output, stageOutputs := p.outputs
            requestedTokens := p.requestedTokens, totalTokensUsed := p.totalTokensUsed
            totalCostUsd := p.totalCostUsd, modelsUsed := p.modelsUsed }

/-- `run`, with the events of the call in order. -/
def run (call : Call) : Except RunError PipelineResult × List Event :=
  match tieredPipelineEnabled call.flag call.config with
  | .error e => (.error e, [])
  | .ok false => (.error .disabled, [])
  | .ok true =>
      if PyText.blank call.prompt then (.error .emptyPrompt, [])
      else
        match runner.recipe call.recipeName with
        | .error e => (.error e, [])
        | .ok recipe =>
            match validateApproval call recipe with
            | .error e => (.error e, [])
            | .ok approval =>
                let log := [.approved]
                match Gate.gatePermits call.gate (some pipelineTier) with
                | (false, reason) => (.error (.policy (deniedReason reason)), log)
                | (true, _) =>
                    match runner.runStages call approval recipe recipe.stages {}
                        (log ++ [.permitted]) with
                    | (.error e, log) => (.error e, log)
                    | (.ok p, log) => (result recipe p, log)

end TieredPipelineRunner

end Perpetua.Pipeline

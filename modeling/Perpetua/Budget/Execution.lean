import Mathlib.Logic.Function.Basic
import Perpetua.Lib.PyNumber
import Perpetua.Budget.Ledger

/-!
# Execution of governed runs

The model of `Tier5ExecutionService.execute` over the shared ledger. Every await and every ledger
transaction ends a step, so the steps of concurrent calls interleave freely. The stage and candidate
loops of `TieredPipelineRunner.run` are explicit; each of its other checks is a step that may raise.
-/

namespace Perpetua.Budget

/-! ## Recipes -/

structure PipelineStage where
  name : String
  models : List String
  maxTokens : ℕ
  deriving DecidableEq, Repr

/-- A recipe that `_load_and_validate` accepts. -/
structure PipelineRecipe where
  name : String
  stages : List PipelineStage
  costReservationUsd : ℚ
  nonempty : stages ≠ []
  distinctNames : (stages.map (·.name)).Nodup
  distinctModels : ∀ s ∈ stages, s.models.Nodup

structure DispatchResult where
  text : String
  totalTokens : Option ℤ
  costUsd : Option ℚ
  deriving DecidableEq, Repr

structure PipelineResult where
  recipe : String
  output : String := ""
  stageOutputs : List (String × String) := []
  requestedTokens : ℕ := 0
  totalTokensUsed : Option ℤ := none
  totalCostUsd : Option ℚ := none
  modelsUsed : List (String × String) := []
  replay : Bool := false
  deriving DecidableEq, Repr

/-! ## One call -/

/-- The local variables of `TieredPipelineRunner.run`. -/
structure Progress where
  /-- The stage at hand and those after it. -/
  stages : List PipelineStage
  /-- The models of the stage at hand that the candidate loop has not reached. -/
  candidates : List String
  outputs : List (String × String) := []
  requestedTokens : ℕ := 0
  totalTokensUsed : Option ℤ := some 0
  totalCostUsd : Option ℚ := some 0
  modelsUsed : List (String × String) := []
  deriving DecidableEq, Repr

/-- Where a call stands. `held` is the amount its reservation returned. -/
inductive Phase
  | start
  /-- In the candidate loop of a stage. -/
  | running (held : ℤ) (p : Progress)
  /-- The dispatcher has called `commit()`; provider I/O comes next. -/
  | committed (held : ℤ) (p : Progress)
  /-- The request is with the provider. -/
  | waiting (held : ℤ) (p : Progress)
  /-- The runner has raised. -/
  | failing
  /-- `has_stage_markers` has answered. -/
  | settling (marked : Bool)
  /-- The runner has returned. -/
  | completed (held : ℤ) (result : PipelineResult)
  | replayed (result : PipelineResult) (reservation : Reservation)
  | returned (result : PipelineResult) (reservation : Reservation)
  | raised
  deriving DecidableEq, Repr

/-- The call may still reach a provider. -/
def Phase.inRunner : Phase → Bool
  | .running .. | .committed .. | .waiting .. => true
  | _ => false

def Phase.finished : Phase → Bool
  | .replayed .. | .returned .. | .raised => true
  | _ => false

/-- What a provider call comes back with. -/
inductive Answer
  | ok (result : DispatchResult)
  /-- `PipelineCandidateUnavailableError`. -/
  | unavailable (fallbackSafe : Bool)
  | error
  deriving DecidableEq, Repr

/-! ## Concurrent calls -/

/-- What the calls share. -/
structure Service (ι : Type) where
  ledger : Tier5BudgetLedger
  digest : String → String
  recipe : PipelineRecipe
  runId : String
  idempotencyKey : String
  fingerprint : String
  explicitCapMicrousd : ι → Option ℤ
  /-- `_candidate_is_in_scope` under the approval of each call. -/
  candidateIsInScope : ι → String → Bool

/-- A request sent to a provider. -/
structure ProviderCall (ι : Type) where
  call : ι
  stage : String
  model : String
  deriving DecidableEq, Repr

structure System (τ ι : Type) where
  db : LedgerDb τ
  phase : ι → Phase := fun _ => .start
  /-- All the provider I/O, in order. -/
  sent : List (ProviderCall ι) := []
  /-- The requests that a provider refused without any risk of having served them. -/
  refused : List (ProviderCall ι) := []

inductive Action (τ ι : Type)
  | reserve (i : ι) (env : CallEnv τ) (day : String)
  /-- The candidate loop moves past a model out of scope, or ends without a result. -/
  | skip (i : ι)
  /-- The dispatcher raises before `commit()`. -/
  | decline (i : ι) (fallbackSafe : Bool)
  | commit (i : ι) (env : CallEnv τ)
  | send (i : ι)
  | answer (i : ι) (a : Answer)
  /-- A check outside the candidate loop raises. -/
  | fail (i : ι)
  | hasStageMarkers (i : ι) (access : Access)
  | conclude (i : ι) (env : CallEnv τ)
  /-- The task is cancelled or its process dies. -/
  | abort (i : ι)
  | recoverExpired (env : CallEnv τ) (before : τ)

variable {τ ι : Type}

namespace Progress

/-- The stage at hand, the stages after it and the model the candidate loop has reached. -/
def current (p : Progress) : Option (PipelineStage × List PipelineStage × String) :=
  match p.stages, p.candidates with
  | stage :: rest, model :: _ => some (stage, rest, model)
  | _, _ => none

/-- The request of the call `i` for the stage and the model at hand. -/
def providerCall (p : Progress) (i : ι) : Option (ProviderCall ι) :=
  p.current.map fun (stage, _, model) => ⟨i, stage.name, model⟩

def enter (recipe : PipelineRecipe) : Progress where
  stages := recipe.stages
  candidates := (recipe.stages.head recipe.nonempty).models

/-- The candidate loop after `continue`. -/
def next (p : Progress) : Progress := { p with candidates := p.candidates.tail }

/-- The accumulators after the stage at hand returned `r` from `model`. -/
def record (p : Progress) (stage : PipelineStage) (rest : List PipelineStage) (model : String)
    (r : DispatchResult) : Progress where
  stages := rest
  candidates := (rest.head?.map (·.models)).getD []
  outputs := p.outputs ++ [(stage.name, r.text)]
  requestedTokens := p.requestedTokens + stage.maxTokens
  totalTokensUsed := p.totalTokensUsed.bind fun t => r.totalTokens.map (t + ·)
  totalCostUsd := p.totalCostUsd.bind fun c => r.costUsd.map (c + ·)
  modelsUsed := p.modelsUsed ++ [(stage.name, model)]

/-- The result once every stage has returned. -/
def result (p : Progress) (recipe : PipelineRecipe) : PipelineResult where
  recipe := recipe.name
  output := (p.outputs.getLast?.map Prod.snd).getD ""
  stageOutputs := p.outputs
  requestedTokens := p.requestedTokens
  totalTokensUsed := p.totalTokensUsed
  totalCostUsd := p.totalCostUsd
  modelsUsed := p.modelsUsed

end Progress

/-- `int(round(cost * MICROUSD_PER_USD))`. -/
def toMicrousd (cost : ℚ) : ℤ := PyNumber.roundHalfEven (cost * microusdPerUsd)

/-- What `execute` reports unused; absent or invalid usage cannot be proven unused. -/
def verifiedUnused (held : ℤ) (totalCostUsd : Option ℚ) : ℤ :=
  match totalCostUsd with
  | some cost => if 0 ≤ cost then max 0 (held - toMicrousd cost) else 0
  | none => 0

def Service.reserveArgs (S : Service ι) (i : ι) (day : String) : ReserveArgs where
  runId := S.runId
  idempotencyKey := S.idempotencyKey
  fingerprint := S.fingerprint
  worstCaseMicrousd := toMicrousd S.recipe.costReservationUsd
  explicitCapMicrousd := S.explicitCapMicrousd i
  day := day

/-- The empty result of an idempotent replay. -/
def Service.replay (S : Service ι) : PipelineResult := { recipe := S.recipe.name, replay := true }

section Step

variable [DecidableEq ι]

/-- The call `i` moves to `phase`. -/
def System.move (s : System τ ι) (i : ι) (phase : Phase) : System τ ι :=
  { s with phase := Function.update s.phase i phase }

/-- `execute` up to the runner. -/
def Service.stepReserve (S : Service ι) (s : System τ ι) (i : ι) (env : CallEnv τ) (day : String) :
    System τ ι :=
  let (db, result) := reserve S.ledger S.digest env (S.reserveArgs i day) s.db
  match result with
  | .error _ => { s with db }.move i .raised
  | .ok r =>
      if r.state ≠ .reserved then { s with db }.move i (.replayed S.replay r)
      else { s with db }.move i (.running r.heldMicrousd (.enter S.recipe))

/-- A provider call that returns `r` ends its stage. -/
def Service.afterResult (S : Service ι) (held : ℤ) (p : Progress) (r : DispatchResult) : Phase :=
  match p.current with
  | none => .failing
  | some (stage, rest, model) =>
      if PyText.blank r.text then .failing
      else
        let p := p.record stage rest model r
        if rest = [] then .completed held (p.result S.recipe) else .running held p

def Service.stepAnswer (S : Service ι) (s : System τ ι) (i : ι) (a : Answer) : System τ ι :=
  match s.phase i with
  | .waiting held p =>
      match a with
      | .ok r => s.move i (S.afterResult held p r)
      | .error => s.move i .failing
      | .unavailable false => s.move i .failing
      | .unavailable true =>
          { s with refused := s.refused ++ (p.providerCall i).toList }.move i (.running held p.next)
  | _ => s

/-- The end of `execute`; a ledger error on the way out of a failure is only logged. -/
def Service.stepConclude (S : Service ι) (s : System τ ι) (i : ι) (env : CallEnv τ) : System τ ι :=
  match s.phase i with
  | .settling true => { s with db := (settle env S.runId (some 0) s.db).1 }.move i .raised
  | .settling false => { s with db := (releasePreDispatch env S.runId s.db).1 }.move i .raised
  | .completed held result =>
      let (db, settled) := settle env S.runId (some (verifiedUnused held result.totalCostUsd)) s.db
      match settled with
      | .ok r => { s with db }.move i (.returned result r)
      | .error _ => { s with db }.move i .raised
  | _ => s

variable [LT τ] [DecidableLT τ]

def Service.step (S : Service ι) (s : System τ ι) : Action τ ι → System τ ι
  | .reserve i env day =>
      match s.phase i with
      | .start => S.stepReserve s i env day
      | _ => s
  | .skip i =>
      match s.phase i with
      | .running held p =>
          match p.current with
          | none => s.move i .failing
          | some (_, _, model) =>
              if S.candidateIsInScope i model then s
              else s.move i (.running held p.next)
      | _ => s
  | .decline i fallbackSafe =>
      match s.phase i with
      | .running held p =>
          match p.current with
          | some (_, _, model) =>
              if S.candidateIsInScope i model then
                s.move i (if fallbackSafe then .running held p.next else .failing)
              else s
          | none => s
      | _ => s
  | .commit i env =>
      match s.phase i with
      | .running held p =>
          match p.current with
          | some (stage, _, model) =>
              if S.candidateIsInScope i model then
                let (db, marked) := markDispatch env S.runId stage.name s.db
                match marked with
                | .ok _ => { s with db }.move i (.committed held p)
                | .error _ => { s with db }.move i .failing
              else s
          | none => s
      | _ => s
  | .send i =>
      match s.phase i with
      | .committed held p =>
          { s with sent := s.sent ++ (p.providerCall i).toList }.move i (.waiting held p)
      | _ => s
  | .answer i a => S.stepAnswer s i a
  | .fail i =>
      match s.phase i with
      | .start => s.move i .raised
      | .running .. | .committed .. => s.move i .failing
      | _ => s
  | .hasStageMarkers i access =>
      match s.phase i with
      | .failing =>
          match access with
          | .granted => s.move i (.settling (s.db.hasStageMarkers S.runId))
          | _ => s.move i .raised
      | _ => s
  | .conclude i env => S.stepConclude s i env
  | .abort i => if (s.phase i).finished then s else s.move i .raised
  | .recoverExpired env before => { s with db := (recoverExpired env before s.db).1 }

end Step

end Perpetua.Budget

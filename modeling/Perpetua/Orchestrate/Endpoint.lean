import Mathlib.Logic.Function.Basic
import Perpetua.Orchestrate.Tracker

/-!
# The orchestrate endpoint

The model of `POST /orchestrate` as a machine: any number of requests, each of which runs to its next
`await` in one step. What the cost guard, the registry and the probes answer is part of the step.
-/

namespace Perpetua.Orchestrate

variable {τ ι : Type}

structure OrchestrateRequest where
  task : String
  taskType : String := "default"
  parentAgentId : Option String := none
  force : Bool := false
  inputTokens : Option ℕ := none

/-- A model candidate, as the registry describes it. -/
structure Candidate where
  name : String
  backend : String
  device : String
  host : String
  port : ℤ
  online : Bool
  reasoning : Bool
  deriving DecidableEq

/-- What a request is answered with. -/
inductive Answer (τ : Type)
  | conflict (existing : AgentRecord τ)
  | created (agent : AgentRecord τ)
  | needsUserAction
  | httpException (statusCode : ℕ)
  /-- Any other exception, a cancellation included. -/
  | raised

def Answer.isConflict : Answer τ → Bool
  | conflict _ => true
  | _ => false

/-- Where a request is suspended, with the agent it has registered. -/
inductive Phase (τ : Type)
  | fresh
  /-- In `await cost_guard.reserve(...)`. -/
  | reserving
  /-- In `await _resolve_candidates(...)`. -/
  | probing (routeCandidates : List Candidate)
  /-- In `await cost_guard.commit(...)`. -/
  | committing (agent : AgentRecord τ)
  /-- In `await asyncio.shield(cost_guard.rollback(...))`. -/
  | rollingBack (agent : Option (AgentRecord τ)) (answer : Answer τ)
  | answered (agent : Option (AgentRecord τ)) (answer : Answer τ)

/-- `TOKEN_CLIFF_HARD_TOKENS`. -/
def tokenCliffHardTokens : ℕ := 199000

/-- The caller's count, but no less than the server's estimate. -/
def effectiveInputTokens (req : OrchestrateRequest) : ℕ :=
  max (req.inputTokens.getD 0) (req.task.toList.length / 4)

/-- `_AUTORESEARCH_TASK_TYPES`. -/
def autoresearchTaskTypes : List String := ["autoresearch", "autoresearch-coder", "ml-experiment"]

/-- `_resolve_candidates`, for the candidates that a probe has reached. -/
def resolveCandidates (candidates : List Candidate) (ready isLocal : Candidate → Bool)
    (taskType : String) : List Candidate :=
  let resolved := candidates.filter ready
  if taskType ∈ autoresearchTaskTypes then resolved.filter isLocal
  else if resolved = [] then candidates else resolved

/-- What `cost_guard.reserve` does. -/
inductive Reserved
  | granted
  | budgetExceeded
  | raised
  deriving DecidableEq

/-- What `cost_guard.commit` does; without the reservation the cost is recorded all the same. -/
inductive Committed
  | settled
  | unknownReservation
  | raised
  deriving DecidableEq

/-- One stretch of one request between two awaits. -/
inductive Step (τ ι : Type)
  | check (i : ι) (disk : Disk)
  /-- The registry's candidates, nothing where the lookup or the budget alert raises. -/
  | reserve (i : ι) (outcome : Reserved) (routeCandidates : Option (List Candidate))
  | probe (i : ι) (ready isLocal : Candidate → Bool) (disk : Disk) (agentId : String) (now : τ)
  | commit (i : ι) (outcome : Committed)
  | rollback (i : ι)
  /-- The client disconnects: `CancelledError` at the await. -/
  | cancel (i : ι)

structure System (τ ι : Type) where
  tracker : Tracker τ
  phase : ι → Phase τ

section

variable [DecidableEq ι] (digest : String → String) (requests : ι → OrchestrateRequest)

def System.move (s : System τ ι) (i : ι) (phase : Phase τ) : System τ ι :=
  { s with phase := Function.update s.phase i phase }

/-- `sha256(f"{task_type}:{task}")`. -/
def taskHash (req : OrchestrateRequest) : String := digest (req.taskType ++ ":" ++ req.task)

/-- The duplicate check and the token cliff. -/
def stepCheck (s : System τ ι) (i : ι) (disk : Disk) : System τ ι :=
  let req := requests i
  let (existing, tracker) := s.tracker.findExisting disk req.taskType (taskHash digest req)
  let s := { s with tracker }
  match existing, req.force with
  | some agent, false => s.move i (.answered none (.conflict agent))
  | _, _ =>
      if tokenCliffHardTokens ≤ effectiveInputTokens req then
        s.move i (.answered none (.httpException 413))
      else s.move i .reserving

def stepReserve (s : System τ ι) (i : ι) (outcome : Reserved)
    (routeCandidates : Option (List Candidate)) : System τ ι :=
  match outcome, routeCandidates with
  | .budgetExceeded, _ => s.move i (.answered none (.httpException 402))
  | .raised, _ => s.move i (.answered none .raised)
  | .granted, none => s.move i (.rollingBack none .raised)
  | .granted, some [] => s.move i (.rollingBack none (.httpException 404))
  | .granted, some candidates => s.move i (.probing candidates)

/-- The agent of a request. -/
def newAgent (req : OrchestrateRequest) (selected : Candidate) (agentId : String) (now : τ) :
    AgentRecord τ where
  agentId := agentId
  role := req.taskType
  model := selected.name
  backend := selected.backend
  host := selected.host
  port := selected.port
  status := "idle"
  createdAt := now
  updatedAt := now
  taskHash := some (taskHash digest req)
  parentAgentId := req.parentAgentId
  metadata := [("reasoning", .bool selected.reasoning), ("device", .str selected.device),
    ("online", .bool selected.online)]

def stepProbe (s : System τ ι) (i : ι) (candidates : List Candidate) (disk : Disk)
    (agentId : String) (now : τ) : System τ ι :=
  let req := requests i
  match candidates with
  | [] =>
      if req.taskType ∈ autoresearchTaskTypes then s.move i (.rollingBack none .needsUserAction)
      else s.move i (.rollingBack none .raised)
  | selected :: _ =>
      let agent := newAgent digest req selected agentId now
      { s with tracker := s.tracker.register disk agent }.move i (.committing agent)

/-- One step; a request that is not at the await in question stays where it is. -/
def step (s : System τ ι) : Step τ ι → System τ ι
  | .check i disk =>
      match s.phase i with
      | .fresh => stepCheck digest requests s i disk
      | _ => s
  | .reserve i outcome routeCandidates =>
      match s.phase i with
      | .reserving => stepReserve s i outcome routeCandidates
      | _ => s
  | .probe i ready isLocal disk agentId now =>
      match s.phase i with
      | .probing routeCandidates =>
          stepProbe digest requests s i
            (resolveCandidates routeCandidates ready isLocal (requests i).taskType) disk agentId now
      | _ => s
  | .commit i outcome =>
      match s.phase i with
      | .committing agent =>
          if outcome = .raised then s.move i (.rollingBack (some agent) .raised)
          else s.move i (.answered (some agent) (.created agent))
      | _ => s
  | .rollback i =>
      match s.phase i with
      | .rollingBack agent answer => s.move i (.answered agent answer)
      | _ => s
  | .cancel i =>
      match s.phase i with
      | .reserving => s.move i (.answered none .raised)
      | .probing _ => s.move i (.rollingBack none .raised)
      | .committing agent => s.move i (.rollingBack (some agent) .raised)
      | .rollingBack agent _ => s.move i (.answered agent .raised)
      | .fresh | .answered .. => s

end

end Perpetua.Orchestrate

import Perpetua.Heartbeat.Posts

/-!
# Workflow phases

The model of `orchestrator/coordination/phases.py` and of `PhaseState`. Every operation reads the
latest snapshot of its phase, works on it and posts the whole of it again.
-/

namespace Perpetua.Coordination

open GossipBus Queue

/-! ## Snapshots -/

inductive PhaseStatus
  | notStarted
  | inProgress
  | blocked
  | complete
  deriving DecidableEq

/-- The values of `PhaseStatus`. -/
def PhaseStatus.value : PhaseStatus → String
  | .notStarted => "not_started"
  | .inProgress => "in_progress"
  | .blocked => "blocked"
  | .complete => "complete"

/-- `PhaseStatus(value)`. -/
def PhaseStatus.ofValue (s : String) : Option PhaseStatus :=
  [notStarted, inProgress, blocked, complete].find? (·.value = s)

/-- `0.0`. -/
def zeroHours : Json.Number :=
  .float
    { negative := false, whole := ['0'], fraction := ['0'], exponent := none
      whole_digits := List.forall_mem_singleton.mpr rfl, whole_form := Or.inl rfl
      fraction_digits := List.forall_mem_singleton.mpr rfl
      exponent_digits := nofun, float := Or.inl (List.cons_ne_nil _ _) }

structure PhaseState where
  phaseName : String
  status : PhaseStatus
  assignedTo : List String := []
  totalTests : ℤ := 0
  testsPassing : ℤ := 0
  blockers : List String := []
  dependsOn : List String := []
  startedAt : Option Json.Number := none
  completedAt : Option Json.Number := none
  notes : String := ""
  estimatedDurationHours : Json.Number := zeroHours
  deriving DecidableEq

def texts (items : List String) : Json.Value := .arr (items.map .str)

def optionalNumber : Option Json.Number → Json.Value
  | some n => .num n
  | none => .null

def PhaseState.toPayload (phase : PhaseState) : Payload :=
  [("kind", .str "phase_event"), ("phase_name", .str phase.phaseName),
    ("status", .str phase.status.value), ("assigned_to", texts phase.assignedTo),
    ("total_tests", .num (.int phase.totalTests)), ("tests_passing", .num (.int phase.testsPassing)),
    ("blockers", texts phase.blockers), ("depends_on", texts phase.dependsOn),
    ("started_at", optionalNumber phase.startedAt),
    ("completed_at", optionalNumber phase.completedAt), ("notes", .str phase.notes),
    ("estimated_duration_hours", .num phase.estimatedDurationHours)]

def texts? : Json.Value → Option (List String)
  | .arr items => items.mapM Json.Value.str?
  | _ => none

def phaseNumber? : Json.Value → Option Json.Number
  | .num n => some n
  | _ => none

def optionalNumber? : Json.Value → Option (Option Json.Number)
  | .num n => some (some n)
  | .null => some none
  | _ => none

/-- `payload.get(key, default)`, read as the type that `to_payload` writes. -/
def getField {α : Type} (p : Payload) (key : String) (default : α) (read : Json.Value → Option α) :
    Option α :=
  match Entries.get? p key with
  | none => some default
  | some v => read v

/-- `from_payload`; `none` is an exception, or a field of another type than `to_payload` writes. -/
def PhaseState.fromPayload (p : Payload) : Option PhaseState := do
  let phaseName ← field? p "phase_name"
  let status ← (field? p "status").bind PhaseStatus.ofValue
  let assignedTo ← getField p "assigned_to" [] texts?
  let totalTests ← getField p "total_tests" 0 asInt?
  let testsPassing ← getField p "tests_passing" 0 asInt?
  let blockers ← getField p "blockers" [] texts?
  let dependsOn ← getField p "depends_on" [] texts?
  let startedAt ← getField p "started_at" none optionalNumber?
  let completedAt ← getField p "completed_at" none optionalNumber?
  let notes ← getField p "notes" "" Json.Value.str?
  let estimatedDurationHours ← getField p "estimated_duration_hours" zeroHours phaseNumber?
  some
    { phaseName, status, assignedTo, totalTests, testsPassing, blockers, dependsOn, startedAt
      completedAt, notes, estimatedDurationHours }

/-! ## The folded state -/

variable {τ : Type}

/-- The rows that `fetch_phase_events` selects for a phase. -/
def isPhaseEvent (phaseName : String) (row : GossipRow τ) : Bool :=
  row.eventType = "heartbeat" && field? row.payload "kind" = some "phase_event" &&
    field? row.payload "phase_name" = some phaseName

/-- `get_latest_phase_state`: the last snapshot, if there is one. The outer `none` is one that cannot
be read. -/
def getLatestPhaseState (phaseName : String) (log : GossipLog τ) : Option (Option PhaseState) :=
  match (log.filter (isPhaseEvent phaseName)).getLast? with
  | none => some none
  | some row => (PhaseState.fromPayload row.payload).map some

/-! ## Operations -/

inductive PhaseCall
  | start (dependsOn : Option (List String)) (agentId : Option String)
  | update (testsPassing totalTests : Option ℤ) (agentId : Option String)
  | complete
  | block (reason : String)
  | unblock (reason : String)
  deriving DecidableEq

/-- `if agent_id and agent_id not in phase.assigned_to: phase.assigned_to.append(agent_id)`. -/
def PhaseState.assign (phase : PhaseState) : Option String → PhaseState
  | none => phase
  | some agentId =>
      if agentId = "" ∨ agentId ∈ phase.assignedTo then phase
      else { phase with assignedTo := phase.assignedTo ++ [agentId] }

/-- `phase_start`. -/
def phaseStart (phaseName : String) (dependsOn : Option (List String)) (agentId : Option String)
    (now : Json.Number) (existing : Option PhaseState) : Option PhaseState :=
  let started := fun phase : PhaseState =>
    let dependsOn := match dependsOn with
      | none | some [] => phase.dependsOn
      | some names => names
    { phase with status := .inProgress, startedAt := some now, dependsOn }.assign agentId
  match existing with
  | some phase => if phase.status = .complete then none else some (started phase)
  | none => some (started { phaseName, status := .notStarted })

/-- `phase_update`. -/
def phaseUpdate (testsPassing totalTests : Option ℤ) (agentId : Option String) (phase : PhaseState) :
    PhaseState :=
  { phase with
    testsPassing := testsPassing.getD phase.testsPassing
    totalTests := totalTests.getD phase.totalTests }.assign agentId

/-- `phase_complete`. -/
def phaseComplete (now : Json.Number) (phase : PhaseState) : Option PhaseState :=
  if phase.status = .complete then none
  else if phase.blockers ≠ [] then none
  else some { phase with status := .complete, completedAt := some now }

/-- `phase_block`. -/
def phaseBlock (reason : String) (phase : PhaseState) : PhaseState :=
  { phase with
    status := .blocked
    blockers := if reason ∈ phase.blockers then phase.blockers else phase.blockers ++ [reason] }

/-- `phase_unblock`. -/
def phaseUnblock (reason : String) (phase : PhaseState) : PhaseState :=
  let blockers := phase.blockers.erase reason
  { phase with blockers, status := if blockers = [] then .inProgress else .blocked }

/-- The snapshot that a call posts, worked out of the one it read. -/
def PhaseCall.result (call : PhaseCall) (phaseName : String) (now : Json.Number)
    (existing : Option PhaseState) : Option PhaseState :=
  match call with
  | .start dependsOn agentId => phaseStart phaseName dependsOn agentId now existing
  | .update testsPassing totalTests agentId =>
      existing.map (phaseUpdate testsPassing totalTests agentId)
  | .complete => existing.bind (phaseComplete now)
  | .block reason => existing.map (phaseBlock reason)
  | .unblock reason => existing.map (phaseUnblock reason)

section Runs

variable [Redaction.UnicodeTables]

/-! ### One call at a time -/

/-- A call, the phase it is about, and what it meets. -/
structure PhaseStep (τ : Type) where
  phaseName : String
  call : PhaseCall
  now : Json.Number
  env : WriteEnv τ

/-- The snapshot that the call goes on to post. -/
def PhaseStep.posted (a : PhaseStep τ) (log : GossipLog τ) : Option PhaseState :=
  (getLatestPhaseState a.phaseName log).bind (a.call.result a.phaseName a.now)

def phaseStep (log : GossipLog τ) (a : PhaseStep τ) : GossipLog τ :=
  match a.posted log with
  | none => log
  | some phase => (Heartbeat.emit phase.toPayload a.env log).getD log

/-! ### Interleaved calls -/

/-- Where a call stands. -/
inductive CallState
  | idle
  /-- It has read the snapshot and worked out its own. -/
  | pending (read : Option PhaseState) (result : PhaseState)
  | acknowledged
  | refused
  | raised

/-- A call that was acknowledged, and the snapshot it read. -/
structure Acknowledgement where
  call : PhaseCall
  read : Option PhaseState

structure PhaseSystem (τ ι : Type) where
  log : GossipLog τ := []
  state : ι → CallState := fun _ => .idle
  /-- The acknowledged calls, in order. -/
  acknowledged : List Acknowledgement := []

inductive PhaseAction (τ ι : Type)
  | read (i : ι) (now : Json.Number)
  | append (i : ι) (env : WriteEnv τ)

variable {ι : Type} [DecidableEq ι]

def PhaseSystem.move (s : PhaseSystem τ ι) (i : ι) (state : CallState) : PhaseSystem τ ι :=
  { s with state := Function.update s.state i state }

def PhaseSystem.step (phaseName : String) (calls : ι → PhaseCall) (s : PhaseSystem τ ι) :
    PhaseAction τ ι → PhaseSystem τ ι
  | .read i now =>
      match s.state i, getLatestPhaseState phaseName s.log with
      | .idle, none => s.move i .raised
      | .idle, some existing =>
          match (calls i).result phaseName now existing with
          | none => s.move i .refused
          | some result => s.move i (.pending existing result)
      | _, _ => s
  | .append i env =>
      match s.state i with
      | .pending read result =>
          match Heartbeat.emit result.toPayload env s.log with
          | none => s.move i .raised
          | some log =>
              let after : PhaseSystem τ ι :=
                { s with log, acknowledged := s.acknowledged ++ [⟨calls i, read⟩] }
              after.move i .acknowledged
      | _ => s

end Runs

end Perpetua.Coordination

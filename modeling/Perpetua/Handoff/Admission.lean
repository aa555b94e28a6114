import Perpetua.Queue.Board

/-!
# Handoff admission

The model of `queue_add_from_handoff` in `orchestrator/coordination/cli.py` on a packet that its
validator has accepted. The look for an earlier admission and the transaction that commits the queue
record with its audit event are separate steps, on separate connections.
-/

namespace Perpetua.Handoff

open GossipBus Queue

variable {τ : Type}

/-! ## Packets -/

/-- What the audit event keeps of a monitorability envelope. -/
structure Monitorability where
  schemaVersion : ℤ := 1
  policyPackId : String
  policyPackVersion : String
  riskTier : String
  reportedMonitorDecision : String
  severity : String
  confidence : Json.Number
  escalationState : String
  retentionClass : String
  reasoningAvailability : String
  redactedManifestSha256 : String
  provenanceCommitSha : String

/-- The fields of an accepted packet that an admission reads; its texts are not blank and its head is
a lower-case SHA. -/
structure HandoffPacket where
  schemaVersion : ℤ := 1
  sessionId : String
  jobId : String
  taskId : String
  assignedAgentId : String
  role : String
  branch : String
  startingHead : String
  monitorability : Option Monitorability := none
  jobId_ne : jobId ≠ ""
  branch_text : PyText.blank branch = false
  agent_text : PyText.blank assignedAgentId = false
  head_sha : isSha startingHead

/-- What one call adds to its packet. -/
structure Call where
  packet : HandoffPacket
  taskName : String
  phase : String
  priority : String
  notes : String
  dependsOn : Option String := none
  sourceRef : Option String := none
  expectedBaseSha : Option String := none

/-- The queue task of the call. -/
def Call.args (c : Call) : QueueAddArgs :=
  { taskName := c.taskName, phase := c.phase, priority := c.priority, notes := c.notes
    dependsOn := c.dependsOn, sourceRef := some c.packet.branch
    expectedBaseSha := some c.packet.startingHead
    requiredAgentId := some c.packet.assignedAgentId }

inductive Refusal
  | sourceRefConflict
  | baseShaConflict
  | invalidArguments
  deriving DecidableEq

/-- The checks before the log is read. `str.lower` is needed only up to equality with a hexadecimal
text, which no character beyond ASCII lowers into. -/
def Call.validate (c : Call) : Except Refusal Unit :=
  if c.sourceRef.any (· ≠ c.packet.branch) then .error .sourceRefConflict
  else if c.expectedBaseSha.any (·.toLower ≠ c.packet.startingHead) then .error .baseShaConflict
  else if !validateQueueAddArgs c.args then .error .invalidArguments
  else .ok ()

/-! ## Events -/

/-- A row that `_find_existing_admission_by_job_id` matches. -/
def isAdmissionOf (jobId : String) (row : GossipRow τ) : Bool :=
  row.eventType = "heartbeat" && field? row.payload "kind" = some "handoff_admitted" &&
    field? row.payload "job_id" = some jobId

/-- `_find_existing_admission_by_job_id`: the first such payload. -/
def findExistingAdmission (jobId : String) (log : GossipLog τ) : Option Payload :=
  (log.find? (isAdmissionOf jobId)).map (·.payload)

def Monitorability.fields (m : Monitorability) : Payload :=
  [("monitorability_schema_version", .num (.int m.schemaVersion)),
    ("oramasys.phylax.policy_pack.id", .str m.policyPackId),
    ("oramasys.phylax.policy_pack.version", .str m.policyPackVersion),
    ("oramasys.phylax.risk_tier", .str m.riskTier),
    ("oramasys.phylax.reported_monitor_decision", .str m.reportedMonitorDecision),
    ("oramasys.phylax.severity", .str m.severity),
    ("oramasys.phylax.confidence", .num m.confidence),
    ("oramasys.phylax.escalation_state", .str m.escalationState),
    ("oramasys.phylax.retention_class", .str m.retentionClass),
    ("oramasys.phylax.reasoning_availability", .str m.reasoningAvailability),
    ("oramasys.evidence.manifest_sha256", .str m.redactedManifestSha256),
    ("oramasys.provenance.commit_sha", .str m.provenanceCommitSha)]

def auditPayload (c : Call) (queueTaskId : String) : Payload :=
  ([("kind", .str "handoff_admitted"), ("schema_version", .num (.int c.packet.schemaVersion)),
    ("session_id", .str c.packet.sessionId), ("job_id", .str c.packet.jobId),
    ("task_id", .str c.packet.taskId), ("queue_task_name", .str c.taskName),
    ("agent_id", .str c.packet.assignedAgentId), ("role", .str c.packet.role),
    ("branch", .str c.packet.branch), ("starting_head", .str c.packet.startingHead)] : Payload) ++
    (c.packet.monitorability.elim [] Monitorability.fields) ++ [("queue_task_id", .str queueTaskId)]

section Transaction

variable [Redaction.UnicodeTables]

/-- `_queue_add_impl`: the enqueue event, and the id of the task; `none` is an unknown priority. -/
def queueAddImpl (a : QueueAddArgs) (suffix uuid : String) (now : τ) (log : GossipLog τ) :
    Option (GossipLog τ × String) :=
  let name := upperName (PyText.strip a.priority)
  (Entries.get? taskPriorities name).map fun level =>
    ((insertEvent uuid now "heartbeat" (enqueuePayload a (taskIdOf a suffix) name level) log).1,
      taskIdOf a suffix)

/-- What the transaction of an admission draws from outside. -/
structure AdmitEnv (τ : Type) where
  access : Access := .granted
  suffix : String
  enqueueUuid : String
  auditUuid : String
  now : τ

/-- The transaction: both events, or none. -/
def commitAdmission (c : Call) (env : AdmitEnv τ) (log : GossipLog τ) : Option (GossipLog τ × String) :=
  match env.access with
  | .granted =>
      (queueAddImpl c.args env.suffix env.enqueueUuid env.now log).map fun (log, queueTaskId) =>
        ((insertEvent env.auditUuid env.now "heartbeat" (auditPayload c queueTaskId) log).1,
          queueTaskId)
  | _ => none

end Transaction

/-! ## Interleaved admissions -/

/-- How a call ends: it returns a queue task id or `False`, or it raises. -/
inductive Outcome
  | returned (queueTaskId : String)
  | refused (why : Refusal)
  | failed
  | raised
  deriving DecidableEq

inductive Phase
  | start
  /-- No admission was found in the log of `readAt` events. -/
  | unadmitted (readAt : ℕ)
  | finished (outcome : Outcome)
  deriving DecidableEq

structure System (τ ι : Type) where
  log : GossipLog τ := []
  phase : ι → Phase := fun _ => .start

inductive Action (τ ι : Type)
  /-- Everything up to the look for an earlier admission. -/
  | check (i : ι)
  | commit (i : ι) (env : AdmitEnv τ)
  /-- Another writer's event that is neither an enqueue nor an admission. -/
  | other (row : GossipRow τ)

def isEnqueue (row : GossipRow τ) : Bool :=
  row.eventType = "heartbeat" && field? row.payload "kind" = some "task_enqueue"

def isAdmission (row : GossipRow τ) : Bool :=
  row.eventType = "heartbeat" && field? row.payload "kind" = some "handoff_admitted"

section Step

variable {ι : Type} [DecidableEq ι] [Redaction.UnicodeTables] (calls : ι → Call)

def System.move (s : System τ ι) (i : ι) (phase : Phase) : System τ ι :=
  { s with phase := Function.update s.phase i phase }

def stepCheck (s : System τ ι) (i : ι) : System τ ι :=
  match s.phase i with
  | .start =>
      match (calls i).validate with
      | .error why => s.move i (.finished (.refused why))
      | .ok _ =>
          match findExistingAdmission (calls i).packet.jobId s.log with
          | none => s.move i (.unadmitted s.log.length)
          | some existing =>
              match field? existing "queue_task_id" with
              | some queueTaskId => s.move i (.finished (.returned queueTaskId))
              | none => s.move i (.finished .raised)
  | _ => s

def stepCommit (s : System τ ι) (i : ι) (env : AdmitEnv τ) : System τ ι :=
  match s.phase i with
  | .unadmitted _ =>
      match commitAdmission (calls i) env s.log with
      | some (log, queueTaskId) => { s with log }.move i (.finished (.returned queueTaskId))
      | none => s.move i (.finished .failed)
  | _ => s

def step (s : System τ ι) : Action τ ι → System τ ι
  | .check i => stepCheck calls s i
  | .commit i env => stepCommit calls s i env
  | .other row => if isEnqueue row || isAdmission row then s else { s with log := s.log ++ [row] }

end Step

end Perpetua.Handoff

import Perpetua.Lib.PyText
import Perpetua.Lib.StrictJson

/-!
# Handoff packets

The models of `orchestrator/handoff_validation.py`, each read from a JSON value. What a validator
raises is not kept: a value is accepted or not.
-/

namespace Perpetua.Envelope

open StrictJson
open Json (Value)

/-! ## Patterns -/

abbrev Text := List Char

def isLowerHex (c : Char) : Bool := c.isDigit || ('a' ≤ c && c ≤ 'f')

def isHex (c : Char) : Bool := isLowerHex c || ('A' ≤ c && c ≤ 'F')

/-- Between `lo` and `hi` characters of a class. -/
def repeated (p : Char → Bool) (lo hi : ℕ) (t : Text) : Bool := t.all p && lo ≤ t.length && t.length ≤ hi

/-- `_SHA_RE` without its anchors. -/
def isSha : Text → Bool := repeated isHex 7 40

/-- `_SHA256_RE` and `_HEX64_RE` without their anchors. -/
def isHex64 : Text → Bool := repeated isLowerHex 64 64

def isTraceId : Text → Bool := repeated isLowerHex 32 32

def isSpanId : Text → Bool := repeated isLowerHex 16 16

def isFullSha : Text → Bool := repeated isLowerHex 40 40

/-- `_OPAQUE_REFERENCE_RE` without its anchors. -/
def isOpaqueReference (t : Text) : Bool :=
  ["evidence_".toList, "sealed_".toList, "grant_".toList].any fun p =>
    p.isPrefixOf t && repeated isLowerHex 16 64 (t.drop p.length)

def isIdentifierChar (c : Char) : Bool := c.isAlphanum || ['.', '_', ':', '@', '/', '-'].contains c

/-- `_MONITORABILITY_IDENTIFIER_RE` without its anchors. -/
def isMonitorabilityIdentifier (t : Text) : Bool :=
  t.head?.any Char.isAlphanum && repeated isIdentifierChar 1 128 t &&
    !(t.tails.any fun rest => "://".toList.isPrefixOf rest)

/-- `pattern.fullmatch` -/
def fullmatch (whole : Text → Bool) (s : String) : Bool := whole s.toList

/-! ## Fields -/

/-- A text that is kept stripped, and is not blank. -/
def nonblank : Reader String := fun v =>
  ((minLength 1 v).map PyText.strip).filter fun s => s ≠ ""

/-- A Git SHA, kept in lower case. -/
def sha : Reader String := fun v =>
  ((str v).filter (fullmatch isSha)).map fun s => .ofList (s.toList.map Char.toLower)

def identifier : Reader String := Reader.when (minLength 1) (fullmatch isMonitorabilityIdentifier)

/-- `Literal[True]` or `Literal[False]`. -/
def literalBool (b : Bool) : Reader Unit := fun v => if bool v = some b then some () else none

/-- `Literal[1]`, and no truth value. -/
def literalOne : Reader Unit := fun v => if int v = some 1 then some () else none

def opaqueReferences : Reader (List String) :=
  Reader.when (minItems 1 str) fun refs => refs.Nodup && refs.all (fullmatch isOpaqueReference)

/-! ## MonitorabilityEnvelopeV1 -/

structure TestEvidence where
  command : String
  result : String

def TestEvidence.read : Reader TestEvidence := fun v => do
  let fields ← object ["command", "result"] v
  let command ← required fields "command" nonblank
  let result ← required fields "result" nonblank
  some { command, result }

def operationNames : List String := ["invoke_agent", "invoke_workflow", "plan", "execute_tool"]

structure OTelGenAiContext where
  traceId : Option String
  spanId : Option String
  parentSpanId : Option String
  operationName : Literal operationNames
  providerName : String
  agentId : String
  agentName : Option String
  agentVersion : Option String
  requestModel : Option String
  conversationId : Option String

/-- `_trace_and_span_are_paired` -/
def OTelGenAiContext.paired (c : OTelGenAiContext) : Bool :=
  c.traceId.isNone == c.spanId.isNone && !(c.parentSpanId.isSome && c.traceId.isNone) &&
    !(c.parentSpanId == c.spanId && c.parentSpanId.isSome)

/-- An identifier without `min_length`. -/
def optionalIdentifier : Reader String := Reader.when str (fullmatch isMonitorabilityIdentifier)

def OTelGenAiContext.read : Reader OTelGenAiContext := fun v => do
  let fields ← object ["trace_id", "span_id", "parent_span_id", "operation_name", "provider_name",
    "agent_id", "agent_name", "agent_version", "request_model", "conversation_id"] v
  let traceId ← orNull fields "trace_id" (Reader.when str (fullmatch isTraceId))
  let spanId ← orNull fields "span_id" (Reader.when str (fullmatch isSpanId))
  let parentSpanId ← orNull fields "parent_span_id" (Reader.when str (fullmatch isSpanId))
  let operationName ← required fields "operation_name" (literalOf operationNames)
  let providerName ← required fields "provider_name" identifier
  let agentId ← required fields "agent_id" identifier
  let agentName ← orNull fields "agent_name" optionalIdentifier
  let agentVersion ← orNull fields "agent_version" optionalIdentifier
  let requestModel ← orNull fields "request_model" optionalIdentifier
  let conversationId ← orNull fields "conversation_id" optionalIdentifier
  let context : OTelGenAiContext :=
    { traceId, spanId, parentSpanId, operationName, providerName, agentId, agentName, agentVersion,
      requestModel, conversationId }
  if context.paired then some context else none

def riskTiers : List String := ["low", "medium", "high", "critical"]
def monitorDecisions : List String := ["allow", "warn", "escalate"]
def severities : List String := ["info", "low", "medium", "high", "critical"]
def escalationStates : List String := ["none", "queued_for_review", "human_review_required"]
def retentionClasses : List String := ["ephemeral", "incident_scoped", "user_authorized"]
def reasoningAvailabilities : List String :=
  ["none", "provider_summary", "user_owned_raw", "sealed_reference"]

structure PhylaxMonitorabilityContext where
  policyPackId : String
  policyPackVersion : String
  riskTier : Literal riskTiers
  capabilityGrantIds : List String
  reportedMonitorDecision : Literal monitorDecisions
  severity : Literal severities
  confidence : Json.Number
  escalationState : Literal escalationStates
  retentionClass : Literal retentionClasses
  reasoningAvailability : Literal reasoningAvailabilities
  sealedEvidenceRef : Option String
  evidenceRefs : List String

def PhylaxMonitorabilityContext.read : Reader PhylaxMonitorabilityContext := fun v => do
  let fields ← object ["policy_pack_id", "policy_pack_version", "risk_tier", "capability_grant_ids",
    "reported_monitor_decision", "severity", "confidence", "escalation_state", "retention_class",
    "reasoning_availability", "sealed_evidence_ref", "evidence_refs"] v
  let policyPackId ← required fields "policy_pack_id" identifier
  let policyPackVersion ← required fields "policy_pack_version" identifier
  let riskTier ← required fields "risk_tier" (literalOf riskTiers)
  let capabilityGrantIds ← required fields "capability_grant_ids" opaqueReferences
  let reportedMonitorDecision ← required fields "reported_monitor_decision" (literalOf monitorDecisions)
  let severity ← required fields "severity" (literalOf severities)
  let confidence ← required fields "confidence"
    (Reader.when number fun n => n.val?.any fun q => 0 ≤ q ∧ q ≤ 1)
  let escalationState ← required fields "escalation_state" (literalOf escalationStates)
  let retentionClass ← required fields "retention_class" (literalOf retentionClasses)
  let reasoningAvailability ← required fields "reasoning_availability"
    (literalOf reasoningAvailabilities)
  let sealedEvidenceRef ← orNull fields "sealed_evidence_ref"
    (Reader.when str (fullmatch isOpaqueReference))
  let evidenceRefs ← required fields "evidence_refs" opaqueReferences
  if (reasoningAvailability.val == "sealed_reference") == sealedEvidenceRef.isSome then
    some
      { policyPackId, policyPackVersion, riskTier, capabilityGrantIds, reportedMonitorDecision, severity,
        confidence, escalationState, retentionClass, reasoningAvailability, sealedEvidenceRef,
        evidenceRefs }
  else none

structure RedactedEvidencePolicy where
  redactionProfileId : String

def RedactedEvidencePolicy.read : Reader RedactedEvidencePolicy := fun v => do
  let fields ← object ["classification", "redaction_profile_id", "export_allowed",
    "raw_reasoning_persisted_in_packet", "raw_reasoning_exported"] v
  let _ ← required fields "classification" (literalOf ["redacted"])
  let redactionProfileId ← required fields "redaction_profile_id" identifier
  let _ ← required fields "export_allowed" (literalBool false)
  let _ ← required fields "raw_reasoning_persisted_in_packet" (literalBool false)
  let _ ← required fields "raw_reasoning_exported" (literalBool false)
  some { redactionProfileId }

structure EvidenceIntegrity where
  provenanceCommitSha : String
  orderedEvidenceRefs : List String
  redactedManifestSha256 : String
  manifest_matches : isHex64 redactedManifestSha256.toList = true

def EvidenceIntegrity.read : Reader EvidenceIntegrity := fun v => do
  let fields ← object ["provenance_commit_sha", "ordered_evidence_refs", "redacted_manifest_sha256"] v
  let provenanceCommitSha ← required fields "provenance_commit_sha"
    (Reader.when str (fullmatch isFullSha))
  let orderedEvidenceRefs ← required fields "ordered_evidence_refs" opaqueReferences
  let redactedManifestSha256 ← required fields "redacted_manifest_sha256" str
  if h : fullmatch isHex64 redactedManifestSha256 then
    some { provenanceCommitSha, orderedEvidenceRefs, redactedManifestSha256, manifest_matches := h }
  else none

structure MonitorabilityEnvelope where
  otel : Option OTelGenAiContext
  phylax : PhylaxMonitorabilityContext
  privacy : RedactedEvidencePolicy
  integrity : EvidenceIntegrity

def MonitorabilityEnvelope.read : Reader MonitorabilityEnvelope := fun v => do
  let fields ← object ["schema_version", "otel", "phylax", "privacy", "integrity"] v
  let _ ← required fields "schema_version" literalOne
  let otel ← orNull fields "otel" OTelGenAiContext.read
  let phylax ← required fields "phylax" PhylaxMonitorabilityContext.read
  let privacy ← required fields "privacy" RedactedEvidencePolicy.read
  let integrity ← required fields "integrity" EvidenceIntegrity.read
  if integrity.orderedEvidenceRefs = phylax.evidenceRefs then
    some { otel, phylax, privacy, integrity }
  else none

/-! ## HandoffPacketV1 -/

def roles : List String :=
  ["orchestrator", "researcher", "autoresearcher", "coder", "verifier", "executor"]

structure HandoffPacket where
  sessionId : String
  jobId : String
  taskId : String
  assignedAgentId : String
  role : Literal roles
  intent : String
  branch : String
  worktree : String
  startingHead : String
  currentHead : String
  commitSha : String
  filesChanged : List String
  rootCauseAddressed : String
  tests : List TestEvidence
  knownRisksOrFollowUp : String
  monitorability : Option MonitorabilityEnvelope
  roundRef : Option String

def HandoffPacket.read : Reader HandoffPacket := fun v => do
  let fields ← object ["schema_version", "session_id", "job_id", "task_id", "assigned_agent_id", "role",
    "intent", "branch", "worktree", "starting_head", "current_head", "commit_sha", "files_changed",
    "root_cause_addressed", "tests", "known_risks_or_follow_up", "human_authorized", "merge_authorized",
    "deployment_authorized", "monitorability", "round_ref"] v
  let _ ← required fields "schema_version" literalOne
  let sessionId ← required fields "session_id" nonblank
  let jobId ← required fields "job_id" nonblank
  let taskId ← required fields "task_id" nonblank
  let assignedAgentId ← required fields "assigned_agent_id" nonblank
  let role ← required fields "role" (literalOf roles)
  let intent ← required fields "intent" nonblank
  let branch ← required fields "branch" nonblank
  let worktree ← required fields "worktree" nonblank
  let startingHead ← required fields "starting_head" sha
  let currentHead ← required fields "current_head" sha
  let commitSha ← required fields "commit_sha" sha
  let filesChanged ← required fields "files_changed"
    (Reader.when (minItems 1 str) fun paths => paths.all fun path => !PyText.blank path)
  let rootCauseAddressed ← required fields "root_cause_addressed" nonblank
  let tests ← required fields "tests" (minItems 1 TestEvidence.read)
  let knownRisksOrFollowUp ← required fields "known_risks_or_follow_up" nonblank
  let _ ← required fields "human_authorized" (literalBool true)
  let _ ← required fields "merge_authorized" (literalBool false)
  let _ ← required fields "deployment_authorized" (literalBool false)
  let monitorability ← orNull fields "monitorability" MonitorabilityEnvelope.read
  let roundRef ← orNull fields "round_ref" str
  if currentHead = commitSha then
    some
      { sessionId, jobId, taskId, assignedAgentId, role, intent, branch, worktree, startingHead,
        currentHead, commitSha, filesChanged, rootCauseAddressed, tests, knownRisksOrFollowUp,
        monitorability, roundRef }
  else none

end Perpetua.Envelope

import Perpetua.Envelope.HandoffPacket

/-!
# The envelope standard

The model of `orchestrator/envelope_standard.py`. A panel carries what its validators have checked.
The diagnostics of a refusal are not kept.
-/

namespace Perpetua.Envelope

open StrictJson
open Json (Value)

/-! ## Patterns and dates -/

/-- `pattern.match` of an anchored pattern: the dollar sign also matches before a last line feed. -/
def reMatch (whole : Text → Bool) (s : String) : Bool :=
  whole s.toList || (s.toList.getLast? == some '\n' && whole s.toList.dropLast)

def isOpaqueChar (c : Char) : Bool := c.isAlphanum || ['.', '_', ':', '-'].contains c

/-- `_OPAQUE_ID_RE` without its anchors. -/
def isOpaqueId (t : Text) : Bool := t.head?.any Char.isAlphanum && repeated isOpaqueChar 4 128 t

/-- `datetime.fromisoformat`, whether its result has an offset, and `date.fromisoformat`. No law is
assumed. -/
class IsoDates (δ ε : Type) where
  dateTime : String → Option δ
  aware : δ → Bool
  date : String → Option ε

variable {δ ε : Type} [IsoDates δ ε]

/-- A date and time with an offset. -/
abbrev Timestamp (δ ε : Type) [IsoDates δ ε] := { t : δ // IsoDates.aware ε t = true }

/-- `_tz_aware` -/
def tzAware (t : δ) : Option (Timestamp δ ε) :=
  if h : IsoDates.aware ε t = true then some ⟨t, h⟩ else none

/-- `_coerce_dt` -/
def coerceDt : Reader (Timestamp δ ε)
  | .str s =>
      let text := (PyText.strip s).toList
      let text := if text.getLast? = some 'Z' then text.dropLast ++ "+00:00".toList else text
      (IsoDates.dateTime ε (.ofList text)).bind tzAware
  | _ => none

variable (δ) in
/-- `_coerce_date` -/
def coerceDate : Reader ε
  | .str s => IsoDates.date δ (PyText.strip s)
  | _ => none

/-! ## Panels of the header -/

inductive Availability
  | active
  | inactive
  | unknown
  deriving DecidableEq

def availabilities : List (String × Availability) :=
  [("active", .active), ("inactive", .inactive), ("unknown", .unknown)]

structure AuthorPanel where
  agentId : String
  model : Option String
  availability : Availability
  agent_matches : reMatch isOpaqueId agentId = true

def AuthorPanel.read : Reader AuthorPanel := fun v => do
  let fields ← object ["agent_id", "model", "availability"] v
  let agentId ← required fields "agent_id" (minLength 1)
  let model ← orNull fields "model" str
  let availability ← required fields "availability" (oneOf availabilities)
  if h : reMatch isOpaqueId agentId then some { agentId, model, availability, agent_matches := h }
  else none

structure ActorPanel where
  agentId : String
  instanceId : String
  identityVerified : Bool
  principalId : Option String
  agent_matches : reMatch isOpaqueId agentId = true
  instance_matches : reMatch isOpaqueId instanceId = true

def ActorPanel.read : Reader ActorPanel := fun v => do
  let fields ← object ["agent_id", "instance_id", "identity_verified", "principal_id"] v
  let agentId ← required fields "agent_id" (minLength 1)
  let instanceId ← required fields "instance_id" (minLength 1)
  let identityVerified ← required fields "identity_verified" bool
  let principalId ← orNull fields "principal_id" str
  if h : reMatch isOpaqueId agentId ∧ reMatch isOpaqueId instanceId then
    some { agentId, instanceId, identityVerified, principalId, agent_matches := h.1, instance_matches := h.2 }
  else none

structure LineagePanel where
  onBehalfOf : Option String
  priorAgent : Option String
  priorAgentStatus : Option Availability
  takeover : Bool
  supersededRef : Option String
  takeover_status : takeover = true → priorAgentStatus ≠ none

def LineagePanel.read : Reader LineagePanel := fun v => do
  let fields ← object ["on_behalf_of", "prior_agent", "prior_agent_status", "takeover",
    "superseded_ref"] v
  let onBehalfOf ← orNull fields "on_behalf_of" str
  let priorAgent ← orNull fields "prior_agent" str
  let priorAgentStatus ← orNull fields "prior_agent_status" (oneOf availabilities)
  let takeover ← optional fields "takeover" false bool
  let supersededRef ← orNull fields "superseded_ref" str
  if h : takeover = true → priorAgentStatus ≠ none then
    some { onBehalfOf, priorAgent, priorAgentStatus, takeover, supersededRef, takeover_status := h }
  else none

structure RedactionPanel where
  applied : Bool
  policyVersion : Option String
  fieldsDropped : Option (List String)
  allowlistDigest : Option String
  digest_matches : allowlistDigest.all (reMatch isHex64) = true

def RedactionPanel.read : Reader RedactionPanel := fun v => do
  let fields ← object ["applied", "policy_version", "fields_dropped", "allowlist_digest"] v
  let applied ← required fields "applied" bool
  let policyVersion ← orNull fields "policy_version" str
  let fieldsDropped ← orNull fields "fields_dropped" (list str)
  let allowlistDigest ← orNull fields "allowlist_digest" str
  if h : allowlistDigest.all (reMatch isHex64) then
    some { applied, policyVersion, fieldsDropped, allowlistDigest, digest_matches := h }
  else none

structure CorrelationPanel where
  traceId : Option String
  spanId : Option String
  runId : Option String
  taskId : Option String
  roundRef : Option String

def CorrelationPanel.read : Reader CorrelationPanel := fun v => do
  let fields ← object ["trace_id", "span_id", "run_id", "task_id", "round_ref"] v
  let traceId ← orNull fields "trace_id" str
  let spanId ← orNull fields "span_id" str
  let runId ← orNull fields "run_id" str
  let taskId ← orNull fields "task_id" str
  let roundRef ← orNull fields "round_ref" str
  some { traceId, spanId, runId, taskId, roundRef }

/-! ## The header -/

inductive EnvelopeKind
  | authorship
  | status
  | delivery
  | claim
  deriving DecidableEq

def envelopeKinds : List (String × EnvelopeKind) :=
  [("authorship", .authorship), ("status", .status), ("delivery", .delivery), ("claim", .claim)]

inductive PrivacyTier
  | internalOnly
  | redacted
  deriving DecidableEq

def privacyTiers : List (String × PrivacyTier) :=
  [("internal_only", .internalOnly), ("redacted", .redacted)]

/-- `_lineage_iff_divergence`: a lineage comes exactly with an author other than the actor, and a
principal only on a claim. -/
structure LineageIffDivergence (kind : EnvelopeKind) (author : AuthorPanel) (actor : ActorPanel)
    (lineage : Option LineagePanel) : Prop where
  lineage : lineage.isSome = true ↔ author.agentId ≠ actor.agentId
  principal : actor.principalId ≠ none → kind = .claim

instance (kind : EnvelopeKind) (author : AuthorPanel) (actor : ActorPanel)
    (lineage : Option LineagePanel) : Decidable (LineageIffDivergence kind author actor lineage) :=
  decidable_of_iff ((lineage.isSome = true ↔ author.agentId ≠ actor.agentId) ∧
    (actor.principalId ≠ none → kind = .claim)) ⟨fun h => ⟨h.1, h.2⟩, fun h => ⟨h.1, h.2⟩⟩

structure EnvelopeHeader (δ ε : Type) [IsoDates δ ε] where
  envelopeId : String
  envelopeSchemaVersion : String
  envelopeKind : EnvelopeKind
  createdAt : Timestamp δ ε
  privacyTier : PrivacyTier
  author : AuthorPanel
  actor : ActorPanel
  redaction : RedactionPanel
  contentClass : Option String
  lineage : Option LineagePanel
  correlation : Option CorrelationPanel
  expiresAt : Option (Timestamp δ ε)
  divergence : LineageIffDivergence envelopeKind author actor lineage

def EnvelopeHeader.read : Reader (EnvelopeHeader δ ε) := fun v => do
  let fields ← object ["envelope_id", "envelope_schema_version", "envelope_kind", "created_at",
    "privacy_tier", "author", "actor", "redaction", "content_class", "lineage", "correlation",
    "expires_at"] v
  let envelopeId ← required fields "envelope_id" (minLength 1)
  let envelopeSchemaVersion ← required fields "envelope_schema_version" (minLength 1)
  let envelopeKind ← required fields "envelope_kind" (oneOf envelopeKinds)
  let createdAt ← required fields "created_at" coerceDt
  let privacyTier ← required fields "privacy_tier" (oneOf privacyTiers)
  let author ← required fields "author" AuthorPanel.read
  let actor ← required fields "actor" ActorPanel.read
  let redaction ← required fields "redaction" RedactionPanel.read
  let contentClass ← orNull fields "content_class" str
  let lineage ← orNull fields "lineage" LineagePanel.read
  let correlation ← orNull fields "correlation" CorrelationPanel.read
  let expiresAt ← orNull fields "expires_at" coerceDt
  if h : LineageIffDivergence envelopeKind author actor lineage then
    some
      { envelopeId, envelopeSchemaVersion, envelopeKind, createdAt, privacyTier, author, actor, redaction,
        contentClass, lineage, correlation, expiresAt, divergence := h }
  else none

/-! ## Panels of the kinds -/

inductive SaltMode
  | session
  | perRecordFallback
  deriving DecidableEq

def saltModes : List (String × SaltMode) :=
  [("session", .session), ("per_record_fallback", .perRecordFallback)]

structure AuthorshipPanel (ε : Type) where
  date : ε
  evidenceAnchors : List String
  rationaleDigest : String
  sessionId : String
  saltMode : SaltMode
  saltChainRef : Option String
  digest_matches : reMatch isHex64 rationaleDigest = true
  fallback_recorded : saltMode = .perRecordFallback → saltChainRef.any (· ≠ "") = true

variable (δ) in
def AuthorshipPanel.read : Reader (AuthorshipPanel ε) := fun v => do
  let fields ← object ["date", "evidence_anchors", "rationale_digest", "session_id", "salt_mode",
    "salt_chain_ref"] v
  let date ← required fields "date" (coerceDate δ)
  let evidenceAnchors ← required fields "evidence_anchors" (minItems 1 str)
  let rationaleDigest ← required fields "rationale_digest" str
  let sessionId ← required fields "session_id" (minLength 1)
  let saltMode ← required fields "salt_mode" (oneOf saltModes)
  let saltChainRef ← orNull fields "salt_chain_ref" str
  if h : reMatch isHex64 rationaleDigest ∧
      (saltMode = .perRecordFallback → saltChainRef.any (· ≠ "") = true) then
    some
      { date, evidenceAnchors, rationaleDigest, sessionId, saltMode, saltChainRef, digest_matches := h.1
        fallback_recorded := h.2 }
  else none

structure StatusPanel (δ ε : Type) [IsoDates δ ε] where
  observedAt : Timestamp δ ε

def StatusPanel.read : Reader (StatusPanel δ ε) := fun v => do
  let fields ← object ["authority", "liveness_effect", "observed_at"] v
  let _ ← required fields "authority" (literalOf ["read_only"])
  let _ ← required fields "liveness_effect" (literalOf ["none"])
  let observedAt ← required fields "observed_at" coerceDt
  some { observedAt }

inductive ClaimOperation
  | claim
  | renew
  | complete
  | release
  | fail
  | recoverExpired
  deriving DecidableEq

def claimOperations : List (String × ClaimOperation) :=
  [("claim", .claim), ("renew", .renew), ("complete", .complete), ("release", .release), ("fail", .fail),
    ("recover-expired", .recoverExpired)]

structure ClaimPanel where
  operation : ClaimOperation
  taskId : String
  principal : String
  idempotencyKey : String
  expectedTaskVersion : ℤ
  sourceRef : String
  expectedBaseSha : String
  capabilityProof : String
  sha_matches : reMatch isSha expectedBaseSha = true

def ClaimPanel.read : Reader ClaimPanel := fun v => do
  let fields ← object ["operation", "task_id", "principal", "idempotency_key", "expected_task_version",
    "source_ref", "expected_base_sha", "capability_proof"] v
  let operation ← required fields "operation" (oneOf claimOperations)
  let taskId ← required fields "task_id" (minLength 1)
  let principal ← required fields "principal" (minLength 1)
  let idempotencyKey ← required fields "idempotency_key" (minLength 1)
  let expectedTaskVersion ← required fields "expected_task_version" (Reader.when int (0 ≤ ·))
  let sourceRef ← required fields "source_ref" (minLength 1)
  let expectedBaseSha ← required fields "expected_base_sha" str
  let capabilityProof ← required fields "capability_proof" (minLength 1)
  if h : reMatch isSha expectedBaseSha then
    some
      { operation, taskId, principal, idempotencyKey, expectedTaskVersion, sourceRef, expectedBaseSha
        capabilityProof, sha_matches := h }
  else none

/-! ## The envelope -/

/-- The panels of an envelope. -/
structure Panels (δ ε : Type) [IsoDates δ ε] where
  authorship : Option (AuthorshipPanel ε)
  status : Option (StatusPanel δ ε)
  delivery : Option HandoffPacket
  claim : Option ClaimPanel

/-- The names of the panels that are not `None`, in the order of `_PANEL_FIELDS`. -/
def Panels.present (p : Panels δ ε) : List EnvelopeKind :=
  (if p.authorship.isSome then [.authorship] else []) ++ (if p.status.isSome then [.status] else []) ++
    (if p.delivery.isSome then [.delivery] else []) ++ (if p.claim.isSome then [.claim] else [])

/-- The task of a delivery or a claim. -/
def Panels.canonicalTask (p : Panels δ ε) : Option String :=
  match p.delivery with
  | some packet => some packet.taskId
  | none => p.claim.map ClaimPanel.taskId

/-- `_projections_match_canonical` -/
structure ProjectionsMatchCanonical (header : EnvelopeHeader δ ε) (p : Panels δ ε) : Prop where
  task : ∀ c ∈ header.correlation, ∀ t ∈ c.taskId, ∀ canonical ∈ p.canonicalTask, t = canonical
  round : ∀ c ∈ header.correlation, ∀ packet ∈ p.delivery, ∀ r ∈ packet.roundRef, ∀ r' ∈ c.roundRef, r' = r
  principal : ∀ principal ∈ header.actor.principalId, ∀ c ∈ p.claim, principal = c.principal

instance (header : EnvelopeHeader δ ε) (p : Panels δ ε) : Decidable (ProjectionsMatchCanonical header p) :=
  decidable_of_iff
    ((∀ c ∈ header.correlation, ∀ t ∈ c.taskId, ∀ canonical ∈ p.canonicalTask, t = canonical) ∧
      (∀ c ∈ header.correlation, ∀ packet ∈ p.delivery, ∀ r ∈ packet.roundRef, ∀ r' ∈ c.roundRef, r' = r) ∧
      ∀ principal ∈ header.actor.principalId, ∀ c ∈ p.claim, principal = c.principal)
    ⟨fun h => ⟨h.1, h.2.1, h.2.2⟩, fun h => ⟨h.1, h.2, h.3⟩⟩

structure AgentEnvelope (δ ε : Type) [IsoDates δ ε] where
  header : EnvelopeHeader δ ε
  panels : Panels δ ε
  onePanel : panels.present = [header.envelopeKind]
  projections : ProjectionsMatchCanonical header panels

/-- `validate_envelope` -/
def validateEnvelope : Reader (AgentEnvelope δ ε) := fun payload => do
  let fields ← object ["header", "authorship", "status", "delivery", "claim"] payload
  let header ← required fields "header" EnvelopeHeader.read
  let authorship ← orNull fields "authorship" (AuthorshipPanel.read δ)
  let status ← orNull fields "status" StatusPanel.read
  let delivery ← orNull fields "delivery" HandoffPacket.read
  let claim ← orNull fields "claim" ClaimPanel.read
  let panels : Panels δ ε := { authorship, status, delivery, claim }
  if h : panels.present = [header.envelopeKind] ∧ ProjectionsMatchCanonical header panels then
    some { header, panels, onePanel := h.1, projections := h.2 }
  else none

end Perpetua.Envelope

import Perpetua.Audit.Log
import Perpetua.Transition.DistanceBucket
import Perpetua.Transition.Equivocation
import Perpetua.Transition.Reputation
import Perpetua.Transition.WitnessQuorum

/-!
# The state transition manager

The model of `orchestrator/state_transition_manager.py`. A call runs under the lock of its peer and
does not await inside, so a call is one step. Each decision of a call has an environment of its own:
the clock it reads and what its append to the audit log meets.
-/

namespace Perpetua.Transition

open Perpetua.Membership

/-! ## Decisions -/

/-- `DecisionType`. -/
inductive DecisionType
  | approved | equivocation | insufficientQuorum | stale | duplicate | sybilFlagged | buffered
  deriving DecidableEq

def DecisionType.value : DecisionType → String
  | .approved => "approved"
  | .equivocation => "equivocation"
  | .insufficientQuorum => "insufficient_quorum"
  | .stale => "stale"
  | .duplicate => "duplicate"
  | .sybilFlagged => "sybil_flagged"
  | .buffered => "buffered"

/-- `SybilSignal`. -/
inductive SybilSignal
  | strong | weak | none
  deriving DecidableEq

/-- `QuorumVote`. -/
structure QuorumVote where
  passes : Bool
  witnessCount : ℕ
  uniqueObserverIds : ℕ
  uniqueProvenanceBuckets : ℕ
  witnessIds : List String
  witnessProvenanceBuckets : List String

/-- `WeightedQuorum`. -/
structure WeightedQuorum (φ : Type) where
  passes : Bool
  weightedScore : φ
  threshold : φ
  weightedByObserver : OrderedDict String φ

/-- `SybilCorrelation`, with its `details`. -/
structure SybilCorrelation where
  signal : SybilSignal
  correlatedPairs : List (String × String)
  witnessBucketIndex : ℕ
  witnessIds : List String
  peersInBucket : List String
  bucketOverlapCount : ℕ

/-- A pair `(epoch, sequence)`. -/
abbrev Key := ℤ × ℤ

/-- The following sequence of the same epoch. -/
def Key.next (key : Key) : Key := (key.1, key.2 + 1)

/-- The reasons given with a decision. -/
inductive Reason (φ : Type)
  | duplicate
  | outOfOrder (epoch sequence : ℤ) (last : Key)
  | expired
  | expiredWhileWaiting (sequence : ℤ)
  | conflict (peerId : String) (epoch sequence : ℤ)
  | identicalRetry (sequence : ℤ)
  | bufferFull (peerId : String) (max : ℕ) (sequence : ℤ)
  | held (sequence : ℤ)
  | expiredBeforeGapFilled
  | equivocations (count : ℕ) (observerId : String)
  | noQuorum (witnesses observers buckets : ℕ)
  | lowScore (score threshold : φ)

def intString (n : ℤ) : String := .ofList (Json.intText n)

def Reason.text {φ : Type} [PyReal.Text φ] : Reason φ → String
  | .duplicate => "Duplicate observation"
  | .outOfOrder epoch sequence last =>
      "Out-of-order observation (epoch=" ++ intString epoch ++ ", seq=" ++ intString sequence ++
        " <= last (" ++ intString last.1 ++ ", " ++ intString last.2 ++ "))"
  | .expired => "Observation TTL expired"
  | .expiredWhileWaiting sequence =>
      "Observation TTL expired while waiting for missing sequence (seq=" ++ intString sequence ++ ")"
  | .conflict peerId epoch sequence =>
      "Conflicting observation already buffered for peer=" ++ peerId ++ ", epoch=" ++
        intString epoch ++ ", sequence=" ++ intString sequence ++ "; preserving the first payload"
  | .identicalRetry sequence =>
      "Out-of-order (seq=" ++ intString sequence ++ "); identical retry remains buffered"
  | .bufferFull peerId max sequence =>
      "Reorder buffer full for peer " ++ peerId ++ " (max " ++ intString max ++
        "); discarding sequence " ++ intString sequence
  | .held sequence =>
      "Out-of-order (seq=" ++ intString sequence ++ "); buffered pending an earlier sequence"
  | .expiredBeforeGapFilled => "Buffered observation expired before its gap filled"
  | .equivocations count observerId =>
      intString count ++ " equivocation(s): observer " ++ observerId ++
        " issued contradictory reports"
  | .noQuorum witnesses observers buckets =>
      "Insufficient independent witness quorum (" ++ intString witnesses ++ " witnesses, " ++
        intString observers ++ " unique observers, " ++ intString buckets ++ " provenance buckets)"
  | .lowScore score threshold =>
      "Weighted quorum score " ++ PyReal.Text.fixed2 score ++ " < threshold " ++
        .ofList (PyReal.Text.repr threshold).text

/-- The `metadata` of a result. -/
structure Metadata (φ : Type) where
  localId : Option String := none
  weightedQuorumThreshold : Option φ := none
  processedWatermarkAdvanced : Bool := false

/-- The parts of a rejection that only some of them have. -/
structure Findings (φ : Type) where
  equivocationEvidences : List (EquivocationEvidence φ) := []
  quorumVote : Option QuorumVote := none
  weightedQuorum : Option (WeightedQuorum φ) := none

/-- `StateTransitionResult`, without the results that are flushed after it. -/
structure StateTransitionResult (φ : Type) where
  accepted : Bool
  decisionType : DecisionType
  peerId : String
  epoch : ℤ
  observerId : String
  rejectionReason : Option (Reason φ) := none
  findings : Findings φ := {}
  sybilCorrelation : Option SybilCorrelation := none
  auditEntry : Option Audit.AuditEntry := none
  metadata : Metadata φ := {}

/-! ## The manager -/

/-- An observation that waits, with the `old_status` of its call. -/
abbrev Waiting (φ : Type) [PyReal φ] := PeerObservation φ × String

/-- The waiting observations of a peer. -/
abbrev Buffer (φ : Type) [PyReal φ] := OrderedDict Key (Waiting φ)

/-- What the constructor fixes, and the functions that the modules below it share. -/
structure Config (φ : Type) where
  localId : String
  weightedQuorumThreshold : φ
  sybilProximityBits : ℤ := 4
  signer : Option (List Char → Option String) := none
  maxCacheSize : ℕ := 10000
  reorderBufferMax : ℕ := 10
  keyOf : String → ℕ := peerIdToInt
  provenanceBucket : String → String
  /-- The `signature_verifier` of the audit log. -/
  verifier : Option Audit.SignatureVerifier := none

structure Manager (φ : Type) [PyReal φ] where
  equivocationLog : EquivocationLog φ := {}
  kBucket : KBucketTable φ
  auditLog : Audit.AuditLog
  reputation : ReputationLedger φ
  lastAppliedKey : OrderedDict String Key := .empty
  seenObservations : OrderedDict String Unit := .empty
  reorderBuffer : OrderedDict String (Buffer φ) := .empty

/-- What one decision meets: the clock of `is_stale`, that of `record_observation`, and the audit
log. -/
structure StageEnv (φ : Type) where
  now : φ
  detectedAt : φ
  append : Audit.AppendEnv

/-- A result with the observation that it is about. -/
abbrev Decided (φ : Type) [PyReal φ] := PeerObservation φ × StateTransitionResult φ

/-- The result of a call, with those that were flushed after it. -/
structure Evaluation (φ : Type) [PyReal φ] where
  result : StateTransitionResult φ
  flushed : List (Decided φ) := []

abbrev Outcome (φ : Type) [PyReal φ] (α : Type) := Manager φ × Except Audit.AuditError α

/-- `_dedup_key`. -/
def dedupKey {φ : Type} [PyReal φ] (o : PeerObservation φ) : String :=
  o.peerId ++ ":" ++ intString o.epoch ++ ":" ++ intString o.sequence ++ ":" ++ o.observerId

/-- The place of an observation in the order of its peer. -/
def orderKey {φ : Type} [PyReal φ] (o : PeerObservation φ) : Key := (o.epoch, o.sequence)

section Gates

variable {φ : Type} [PyReal φ] (cfg : Config φ)

/-- `_check_quorum`. -/
def checkQuorum (o : PeerObservation φ) : Bool := validateWitnessQuorum cfg.provenanceBucket o

/-- `_build_quorum_vote`. -/
def buildQuorumVote (o : PeerObservation φ) (passes : Bool) : QuorumVote :=
  let observerIds := o.witnessSet.map (·.observerId)
  let provenanceBuckets := o.witnessSet.map fun w => cfg.provenanceBucket w.observerProvenance
  { passes
    witnessCount := o.witnessSet.length
    uniqueObserverIds := observerIds.dedup.length
    uniqueProvenanceBuckets := provenanceBuckets.dedup.length
    witnessIds := observerIds
    witnessProvenanceBuckets := provenanceBuckets }

/-- `_weight_votes`. -/
def weightVotes (reputation : ReputationLedger φ) (o : PeerObservation φ) (vote : QuorumVote) :
    WeightedQuorum φ :=
  let weightedByBucket : List (String × φ) :=
    (o.witnessSet.zip vote.witnessProvenanceBuckets).foldl
      (fun weights wb =>
        Entries.set weights wb.2
          (PyReal.max ((Entries.get? weights wb.2).getD ((0 : ℤ) : φ))
            (reputation.reputationWeight wb.1.observerId)))
      []
  let total := PyReal.sum (weightedByBucket.map (·.2))
  { passes := cfg.weightedQuorumThreshold ≤ total
    weightedScore := total
    threshold := cfg.weightedQuorumThreshold
    weightedByObserver :=
      o.witnessSet.foldl
        (fun weights w => weights.set w.observerId (reputation.reputationWeight w.observerId))
        .empty }

/-- The pairs of a list, an earlier element first. -/
def pairs {α : Type*} : List α → List (α × α)
  | [] => []
  | a :: l => l.map (a, ·) ++ pairs l

/-- `_check_sybil_correlation`. -/
def checkSybilCorrelation (kBucket : KBucketTable φ) (o : PeerObservation φ) : SybilCorrelation :=
  let witnessIds := o.witnessSet.map (·.peerId)
  let correlated := fun ab : String × String =>
    isCorrelated cfg.keyOf ab.1 ab.2 cfg.sybilProximityBits
  let correlatedPairs :=
    (witnessIds.map (o.peerId, ·)).filter correlated ++ (pairs witnessIds).filter correlated
  let bucketIndex := kBucket.bucketFor cfg.keyOf o.peerId
  let peersInBucket := kBucket.peersInBucket bucketIndex
  let bucketOverlap := peersInBucket.filter (· ∈ witnessIds)
  { signal :=
      if correlatedPairs.length ≥ 2 ∨ bucketOverlap.length ≥ 2 then .strong
      else if correlatedPairs ≠ [] ∨ bucketOverlap ≠ [] then .weak
      else .none
    correlatedPairs
    witnessBucketIndex := bucketIndex
    witnessIds := witnessIds.mergeSort (· ≤ ·)
    peersInBucket
    bucketOverlapCount := bucketOverlap.length }

end Gates

/-! ## Rejecting and applying -/

section Apply

variable {φ : Type} [PyReal φ] (cfg : Config φ)

/-- `_reject`. -/
def reject (m : Manager φ) (o : PeerObservation φ) (decision : DecisionType) (reason : Reason φ)
    (oldStatus : String) (env : StageEnv φ) (findings : Findings φ) :
    Outcome φ (StateTransitionResult φ) :=
  let (auditLog, entry) := m.auditLog.append cfg.verifier
    { peerId := o.peerId, oldStatus, newStatus := decision.value, signer := cfg.signer } env.append
  ({ m with auditLog },
    entry.map fun auditEntry =>
      { accepted := false
        decisionType := decision
        peerId := o.peerId
        epoch := o.epoch
        observerId := o.observerId
        rejectionReason := some reason
        findings
        auditEntry := some auditEntry })

/-- `_apply_observation`. -/
def applyObservation (m : Manager φ) (o : PeerObservation φ) (oldStatus : String)
    (dedupKey : String) (env : StageEnv φ) : Outcome φ (StateTransitionResult φ) :=
  let (equivocationLog, evidences) := m.equivocationLog.recordObservation o env.detectedAt
  let m := { m with equivocationLog }
  if evidences ≠ [] then
    let m := { m with reputation := m.reputation.recordEquivocation o.observerId }
    reject cfg m o .equivocation (.equivocations evidences.length o.observerId) oldStatus env
      { equivocationEvidences := evidences }
  else
    let quorumPasses := checkQuorum cfg o
    let vote := buildQuorumVote cfg o quorumPasses
    if ¬ quorumPasses then
      reject cfg m o .insufficientQuorum
        (.noQuorum vote.witnessCount vote.uniqueObserverIds vote.uniqueProvenanceBuckets)
        oldStatus env { quorumVote := some vote }
    else
      let weighted := weightVotes cfg m.reputation o vote
      if ¬ weighted.passes then
        reject cfg m o .insufficientQuorum (.lowScore weighted.weightedScore weighted.threshold)
          oldStatus env { quorumVote := some vote, weightedQuorum := some weighted }
      else
        let sybil := checkSybilCorrelation cfg m.kBucket o
        let decision :=
          if sybil.signal = .strong ∨ sybil.signal = .weak then DecisionType.sybilFlagged
          else .approved
        -- the status column shows what was observed, not the decision
        match m.auditLog.append cfg.verifier
          { peerId := o.peerId, oldStatus, newStatus := o.observationType.value
            witnesses := weighted.weightedByObserver.keys, signer := cfg.signer } env.append with
        | (auditLog, .error e) => ({ m with auditLog }, .error e)
        | (auditLog, .ok auditEntry) =>
            ({ m with
                auditLog
                seenObservations := m.seenObservations.touch cfg.maxCacheSize dedupKey ()
                lastAppliedKey := m.lastAppliedKey.touch cfg.maxCacheSize o.peerId (orderKey o)
                kBucket := m.kBucket.update cfg.keyOf o.peerId o.timestamp },
              .ok
                { accepted := true
                  decisionType := decision
                  peerId := o.peerId
                  epoch := o.epoch
                  observerId := o.observerId
                  findings := { quorumVote := some vote, weightedQuorum := some weighted }
                  sybilCorrelation := some sybil
                  auditEntry := some auditEntry
                  metadata :=
                    { localId := some cfg.localId
                      weightedQuorumThreshold := some cfg.weightedQuorumThreshold } })

end Apply

/-! ## The reorder buffer -/

section Buffers

variable {φ : Type} [PyReal φ]

/-- The waiting observations of a peer; none when it has no buffer. -/
def Manager.buffer (m : Manager φ) (peerId : String) : Buffer φ :=
  (m.reorderBuffer.get? peerId).getD .empty

/-- Change the buffer of a peer in place. -/
def Manager.setBuffer (m : Manager φ) (peerId : String) (buffer : Buffer φ) : Manager φ :=
  { m with reorderBuffer := m.reorderBuffer.set peerId buffer }

/-- Take the buffer of a peer away. -/
def Manager.dropBuffer (m : Manager φ) (peerId : String) : Manager φ :=
  { m with reorderBuffer := m.reorderBuffer.erase peerId }

variable (cfg : Config φ)

/-- `_buffer_observation`. -/
def bufferObservation [PyReal.Text φ] (m : Manager φ) (o : PeerObservation φ) (oldStatus : String)
    (env : StageEnv φ) : Outcome φ (StateTransitionResult φ) :=
  let buffered := fun reason : Reason φ =>
    ({ accepted := false
       decisionType := .buffered
       peerId := o.peerId
       epoch := o.epoch
       observerId := o.observerId
       rejectionReason := some reason } : StateTransitionResult φ)
  if o.isStale env.now then
    reject cfg m o .stale (.expiredWhileWaiting o.sequence) oldStatus env {}
  else
    let buffer := m.buffer o.peerId
    match buffer.get? (orderKey o) with
    | some existing =>
        if existing.1.toJson ≠ o.toJson then
          reject cfg m o .duplicate (.conflict o.peerId o.epoch o.sequence) oldStatus env {}
        else (m, .ok (buffered (.identicalRetry o.sequence)))
    | none =>
        if buffer.size ≥ cfg.reorderBufferMax then
          reject cfg m o .stale (.bufferFull o.peerId cfg.reorderBufferMax o.sequence) oldStatus env
            {}
        else
          let buffer := (buffer.set (orderKey o) (o, oldStatus)).moveToEnd (orderKey o)
          ({ m with
              reorderBuffer := m.reorderBuffer.touch cfg.maxCacheSize o.peerId buffer },
            .ok (buffered (.held o.sequence)))

/-- Move the watermark of a peer to an observation. -/
def Manager.advance (m : Manager φ) (peerId : String) (o : PeerObservation φ) : Manager φ :=
  { m with lastAppliedKey := m.lastAppliedKey.touch cfg.maxCacheSize peerId (orderKey o) }

/-- Remember an observation in the replay cache. -/
def Manager.markSeen (m : Manager φ) (o : PeerObservation φ) : Manager φ :=
  { m with seenObservations := m.seenObservations.touch cfg.maxCacheSize (dedupKey o) () }

/-- Put an entry back at the front of its buffer. -/
def Manager.restore (m : Manager φ) (peerId : String) (key : Key) (entry : Waiting φ) : Manager φ :=
  m.setBuffer peerId (((m.buffer peerId).set key entry).moveToFront key)

/-- How a round of the flush ends: the loop stops with an outcome, or it goes on. -/
inductive Round (φ : Type) [PyReal φ]
  | stop (outcome : Outcome φ (List (Decided φ)))
  | next (m : Manager φ) (decided : List (Decided φ))

/-- One round of the loop of `_flush_reorder_buffer`. -/
def flushRound (peerId : String) (env : StageEnv φ) (m : Manager φ) : Round φ :=
  match m.lastAppliedKey.get? peerId with
  | none => .stop (m, .ok [])
  | some last =>
      let nextKey := Key.next last
      match (m.buffer peerId).get? nextKey with
      | none => .stop (m, .ok [])
      | some (o, oldStatus) =>
          let popped := m.setBuffer peerId ((m.buffer peerId).erase nextKey)
          if o.isStale env.now then
            -- the watermark stays: later entries must not skip the gap
            let (m, result) := reject cfg popped o .stale .expiredBeforeGapFilled oldStatus env {}
            .stop (m, result.map fun result => [(o, result)])
          else if dedupKey o ∈ popped.seenObservations.keys then
            .next (popped.advance cfg peerId o) []
          else
            match applyObservation cfg popped o oldStatus (dedupKey o) env with
            | (m, .error e) => .stop (m.restore peerId nextKey (o, oldStatus), .error e)
            | (m, .ok result) =>
                if m.lastAppliedKey.get? peerId = some last then
                  let metadata := { result.metadata with processedWatermarkAdvanced := true }
                  .next ((m.markSeen cfg o).advance cfg peerId o) [(o, { result with metadata })]
                else .next m [(o, result)]

/-- The loop of `_flush_reorder_buffer`. A round that goes on has taken an entry out of the buffer,
whose size bounds the rounds. -/
def flushLoop (peerId : String) :
    ℕ → (ℕ → StageEnv φ) → Manager φ → Outcome φ (List (Decided φ))
  | 0, _, m => (m, .ok [])
  | rounds + 1, envs, m =>
      match flushRound cfg peerId (envs 0) m with
      | .stop outcome => outcome
      | .next m decided =>
          let (m, rest) := flushLoop peerId rounds (fun i => envs (i + 1)) m
          (m, rest.map (decided ++ ·))

/-- `_flush_reorder_buffer`. -/
def flushReorderBuffer (peerId : String) (envs : ℕ → StageEnv φ) (m : Manager φ) :
    Outcome φ (List (Decided φ)) :=
  let buffer := m.buffer peerId
  if buffer.size = 0 then (m, .ok [])
  else
    match flushLoop cfg peerId buffer.size envs m with
    | (m, .error e) => (m, .error e)
    | (m, .ok flushed) =>
        if (m.buffer peerId).size = 0 then (m.dropBuffer peerId, .ok flushed) else (m, .ok flushed)

end Buffers

/-! ## Evaluating -/

/-- A call of `evaluate_observation`, with what its decisions meet. -/
structure Call (φ : Type) [PyReal φ] where
  obs : PeerObservation φ
  oldStatus : String := "UNKNOWN"
  env : StageEnv φ
  /-- What the rounds of the flush meet. -/
  flushEnv : ℕ → StageEnv φ

/-- Where an observation stands to the last applied one of its peer. -/
inductive Place
  | behind (last : Key)
  | inOrder
  | ahead
  deriving DecidableEq

def place (last : Option Key) (key : Key) : Place :=
  match last with
  | none => .inOrder
  | some last =>
      if key.1 < last.1 ∨ (key.1 = last.1 ∧ key.2 ≤ last.2) then .behind last
      else if key.1 = last.1 ∧ key.2 > last.2 + 1 then .ahead
      else .inOrder

section Evaluate

variable {φ : Type} [PyReal φ] [PyReal.Text φ] (cfg : Config φ)

/-- A result after which nothing is flushed. -/
def alone (outcome : Outcome φ (StateTransitionResult φ)) : Outcome φ (Evaluation φ) :=
  (outcome.1, outcome.2.map fun result => { result })

/-- `_evaluate_locked`. -/
def evaluate (m : Manager φ) (c : Call φ) : Outcome φ (Evaluation φ) :=
  let o := c.obs
  if dedupKey o ∈ m.seenObservations.keys then
    alone (reject cfg m o .duplicate .duplicate c.oldStatus c.env {})
  else
    match place (m.lastAppliedKey.get? o.peerId) (orderKey o) with
    | .behind last =>
        alone (reject cfg m o .stale (.outOfOrder o.epoch o.sequence last) c.oldStatus c.env {})
    | .ahead => alone (bufferObservation cfg m o c.oldStatus c.env)
    | .inOrder =>
        if o.isStale c.env.now then
          alone (reject cfg m o .stale .expired c.oldStatus c.env {})
        else
          match applyObservation cfg m o c.oldStatus (dedupKey o) c.env with
          | (m, .error e) => (m, .error e)
          | (m, .ok result) =>
              let (m, flushed) := flushReorderBuffer cfg o.peerId c.flushEnv m
              (m, flushed.map fun flushed => { result, flushed })

/-- The manager after a call, whether it returns or raises. -/
def step (m : Manager φ) (c : Call φ) : Manager φ := (evaluate cfg m c).1

end Evaluate

end Perpetua.Transition

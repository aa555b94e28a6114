import Perpetua.Lib.JsonEquality
import Perpetua.Membership

/-!
# The wire codec of an observation

The model of `from_json`, `_from_dict` and `to_json` of `PeerObservation` in
`orchestrator/membership.py`. `from_json` does not look at the type of most fields, so a field holds
any value that JSON has.
-/

namespace Perpetua.Membership

open Json (Value Number)

/-! ## Observations of any fields -/

/-- A value that `_deep_freeze_dict` has gone through: its lists are tuples. -/
inductive Frozen
  | null
  | bool (b : Bool)
  | num (n : Number)
  | str (s : String)
  | tuple (items : List Frozen)
  | dict (fields : List (String × Frozen))

/-- The fields other than the witnesses, with a `probe_result` in `π`. -/
structure WireFields (π : Type) where
  peerId : Value
  epoch : Value
  timestamp : Value
  observerId : Value
  sequence : Value
  observerProvenance : Value
  observationType : ObservationType
  directStatus : DirectStatus
  endpoint : Value
  endpointEpoch : Value
  lastHeartbeatTimestamp : Value
  lastProbeTimestamp : Value
  probeLatencyMs : Value
  route : Route
  probeResult : π
  relayProof : Value
  proofScore : Value
  freshnessScore : Value
  witnessAgreement : Value
  witnessDisagreement : Value
  backendCaps : List Value
  backendState : Option BackendState
  backendStateTimestamp : Value
  ttlSeconds : Value
  /-- The elements of the `frozenset`. -/
  tags : List Value
  notes : Value
  sourceId : Value
  chainDepth : Value

inductive WireObservation
  | node (fields : WireFields Frozen) (witnessSet : List WireObservation)

inductive CodecError
  /-- `json.JSONDecodeError`. -/
  | decodeError
  | attributeError
  | typeError
  | keyError (key : String)
  /-- The `ValueError` of an enumeration. -/
  | notMember (got : Value)
  /-- `must be in [0.0, 1.0]`. -/
  | outOfBounds (field : String) (got : Value)
  /-- `witness_set depth exceeds maximum`. -/
  | witnessDepth (computed : ℕ)
  /-- `chain_depth exceeds MAX_CHAIN_DEPTH`. -/
  | chainDepth (got : Value)

mutual

/-- `_compute_witness_depth`. -/
def WireObservation.depth : WireObservation → ℕ
  | .node _ witnessSet => 1 + maxDepth witnessSet

def WireObservation.maxDepth : List WireObservation → ℕ
  | [] => 0
  | w :: ws => Nat.max w.depth (maxDepth ws)

end

/-! ## The constructor -/

mutual

/-- `_deep_freeze_dict`. -/
def freeze : Value → Frozen
  | .null => .null
  | .bool b => .bool b
  | .num n => .num n
  | .str s => .str s
  | .arr items => .tuple (freezeItems items)
  | .obj fields => .dict (freezeFields fields)

def freezeItems : List Value → List Frozen
  | [] => []
  | v :: vs => freeze v :: freezeItems vs

def freezeFields : List (String × Value) → List (String × Frozen)
  | [] => []
  | (k, v) :: fs => (k, freeze v) :: freezeFields fs

end

/-- `frozenset`: the elements, none equal to an earlier one. -/
def frozenset : List Value → List Value
  | [] => []
  | v :: vs => v :: (frozenset vs).filter fun w => !v.eq w

/-- `0.0 <= n <= 1.0`. -/
def inBounds (n : Number) : Bool := n.val?.any fun q => 0 ≤ q && q ≤ 1

/-- `n > MAX_CHAIN_DEPTH`. -/
def exceedsChain (n : Number) : Bool := n = .infinity || n.val?.any fun q => (maxChainDepth : ℚ) < q

/-- One half of `_validate_bounds`. -/
def validateBound (field : String) (v : Value) : Except CodecError Unit :=
  match v.number? with
  | none => .error .typeError
  | some n => if inBounds n then .ok () else .error (.outOfBounds field v)

/-- `_validate_witness_depth`. -/
def validateWitnessDepth (witnessSet : List WireObservation) : Except CodecError Unit :=
  let depth := 1 + WireObservation.maxDepth witnessSet
  if depth > maxWitnessDepth then .error (.witnessDepth depth) else .ok ()

/-- `_validate_chain_depth`. -/
def validateChainDepth (v : Value) : Except CodecError Unit :=
  match v.number? with
  | none => .error .typeError
  | some n => if exceedsChain n then .error (.chainDepth v) else .ok ()

/-- `__post_init__`. -/
def construct (args : WireFields Value) (witnessSet : List WireObservation) :
    Except CodecError WireObservation := do
  validateBound "proof_score" args.proofScore
  validateBound "freshness_score" args.freshnessScore
  validateWitnessDepth witnessSet
  validateChainDepth args.chainDepth
  return .node
    { args with probeResult := freeze args.probeResult, tags := frozenset args.tags } witnessSet

/-! ## Decoding -/

abbrev Data := List (String × Value)

/-- `data[key]`. -/
def required (data : Data) (key : String) : Except CodecError Value :=
  match Entries.get? data key with
  | some v => .ok v
  | none => .error (.keyError key)

/-- `data.get(key, default)`. -/
def optional (data : Data) (key : String) (default : Value) : Value :=
  (Entries.get? data key).getD default

/-- The member of an enumeration with this value. -/
def member {α : Type} (members : List α) (value : α → String) (v : Value) : Except CodecError α :=
  match members.find? fun a => v.str? = some (value a) with
  | some a => .ok a
  | none => .error (.notMember v)

/-- What iterating over a value gives. -/
def iterate : Value → Except CodecError (List Value)
  | .arr items => .ok items
  | .str s => .ok (s.toList.map fun c => .str (.singleton c))
  | .obj fields => .ok (fields.map fun e => .str e.1)
  | _ => .error .typeError

def hashable : Value → Bool
  | .arr _ | .obj _ => false
  | _ => true

/-- The elements of a `frozenset`. -/
def elements (v : Value) : Except CodecError (List Value) := do
  let items ← iterate v
  if items.all hashable then return items else .error .typeError

/-- `backend_state`, when there is one. -/
def backendStateOf (data : Data) : Except CodecError (Option BackendState) :=
  let v := optional data "backend_state" .null
  if v.truthy then
    (member [.macDual, .macOllamaOnly, .winLmstudio, .macNone, .offline] BackendState.value v).map
      some
  else .ok none

/-- The arguments that `_from_dict` gives to the constructor. -/
def argsOf (data : Data) : Except CodecError (WireFields Value) := do
  let peerId ← required data "peer_id"
  let epoch ← required data "epoch"
  let timestamp ← required data "timestamp"
  let observerId ← required data "observer_id"
  let observationType ← required data "observation_type"
  let observationType ← member [.reachable, .unreachable] ObservationType.value observationType
  let directStatus ← required data "direct_status"
  let directStatus ← member
    [.reachable, .timeout, .unreachable, .stale, .suspect, .unknown, .degraded] DirectStatus.value
    directStatus
  let endpoint ← required data "endpoint"
  let endpointEpoch ← required data "endpoint_epoch"
  let route ← member [.direct, .relay, .discovered, .staticSeed, .passivelyLearned, .unknown]
    Route.value (optional data "route" (.str "unknown"))
  let proofScore ← required data "proof_score"
  let freshnessScore ← required data "freshness_score"
  let witnessAgreement ← required data "witness_agreement"
  let witnessDisagreement ← required data "witness_disagreement"
  let backendCaps ← iterate (optional data "backend_caps" (.arr []))
  let backendState ← backendStateOf data
  let tags ← elements (optional data "tags" (.arr []))
  return {
    peerId, epoch, timestamp, observerId, observationType, directStatus, endpoint, endpointEpoch
    route, proofScore, freshnessScore, witnessAgreement, witnessDisagreement, backendCaps
    backendState, tags
    sequence := optional data "sequence" (.num (.int 0))
    observerProvenance := optional data "observer_provenance" (.str "")
    lastHeartbeatTimestamp := optional data "last_heartbeat_timestamp" .null
    lastProbeTimestamp := optional data "last_probe_timestamp" .null
    probeLatencyMs := optional data "probe_latency_ms" .null
    probeResult := optional data "probe_result" .null
    relayProof := optional data "relay_proof" .null
    backendStateTimestamp := optional data "backend_state_timestamp" .null
    ttlSeconds := optional data "ttl_seconds" (.num (.int 60))
    notes := optional data "notes" (.str "")
    sourceId := optional data "source_id" .null
    chainDepth := optional data "chain_depth" (.num (.int 0)) }

mutual

/-- `_from_dict`. -/
def fromDict : Value → Except CodecError WireObservation
  | .obj data => do
      let witnesses ← witnessesIn data
      let args ← argsOf data
      construct args witnesses
  | _ => .error .attributeError

/-- The witnesses under `witness_set`, if it is there. -/
def witnessesIn : Data → Except CodecError (List WireObservation)
  | [] => .ok []
  | (k, v) :: data => if k = "witness_set" then witnessesOf v else witnessesIn data

/-- What iterating gives is a list of dictionaries, or nothing. -/
def witnessesOf : Value → Except CodecError (List WireObservation)
  | .arr items => fromDicts items
  | .str s => if s = "" then .ok [] else .error .attributeError
  | .obj fields => if fields.isEmpty then .ok [] else .error .attributeError
  | _ => .error .typeError

def fromDicts : List Value → Except CodecError (List WireObservation)
  | [] => .ok []
  | v :: vs => do
      let w ← fromDict v
      let ws ← fromDicts vs
      return w :: ws

end

/-- `from_json`. -/
def fromJson [Json.FloatReader] (text : List Char) : Except CodecError WireObservation :=
  match Json.loads text with
  | some v => fromDict v
  | none => .error .decodeError

/-! ## Encoding -/

mutual

/-- A frozen value as `json.dumps` takes it. -/
def Frozen.toJson : Frozen → Value
  | .null => .null
  | .bool b => .bool b
  | .num n => .num n
  | .str s => .str s
  | .tuple items => .arr (toJsonItems items)
  | .dict fields => .obj (toJsonFields fields)

def Frozen.toJsonItems : List Frozen → List Value
  | [] => []
  | v :: vs => v.toJson :: toJsonItems vs

def Frozen.toJsonFields : List (String × Frozen) → List (String × Value)
  | [] => []
  | (k, v) :: fs => (k, v.toJson) :: toJsonFields fs

end

/-- `sorted`: strings or numbers, but not both. -/
def sorted (items : List Value) : Except CodecError (List Value) :=
  if items.length < 2 then .ok items
  else if items.all fun v => v.str?.isSome then
    .ok (((items.filterMap Value.str?).mergeSort fun s t => s ≤ t).map .str)
  else if items.all fun v => v.number?.isSome then
    .ok (items.mergeSort fun v w => !(w.number?.any fun n => v.number?.any n.lt))
  else .error .typeError

mutual

/-- `_to_dict`. -/
def WireObservation.toDict : WireObservation → Except CodecError Value
  | .node f witnessSet => do
      let witnesses ← toDicts witnessSet
      let tags ← sorted f.tags
      return .obj
        [("peer_id", f.peerId), ("epoch", f.epoch), ("timestamp", f.timestamp),
          ("observer_id", f.observerId), ("sequence", f.sequence),
          ("observer_provenance", f.observerProvenance),
          ("observation_type", .str f.observationType.value),
          ("direct_status", .str f.directStatus.value), ("endpoint", f.endpoint),
          ("endpoint_epoch", f.endpointEpoch),
          ("last_heartbeat_timestamp", f.lastHeartbeatTimestamp),
          ("last_probe_timestamp", f.lastProbeTimestamp), ("probe_latency_ms", f.probeLatencyMs),
          ("route", .str f.route.value), ("probe_result", f.probeResult.toJson),
          ("relay_proof", f.relayProof), ("proof_score", f.proofScore),
          ("freshness_score", f.freshnessScore), ("witness_agreement", f.witnessAgreement),
          ("witness_disagreement", f.witnessDisagreement), ("witness_set", .arr witnesses),
          ("backend_caps", .arr f.backendCaps),
          ("backend_state", ofOption (fun s => .str s.value) f.backendState),
          ("backend_state_timestamp", f.backendStateTimestamp), ("ttl_seconds", f.ttlSeconds),
          ("tags", .arr tags), ("notes", f.notes), ("source_id", f.sourceId),
          ("chain_depth", f.chainDepth)]

def WireObservation.toDicts : List WireObservation → Except CodecError (List Value)
  | [] => .ok []
  | w :: ws => do
      let v ← w.toDict
      let vs ← toDicts ws
      return v :: vs

end

/-- `to_json`. -/
def WireObservation.toJson (o : WireObservation) : Except CodecError (List Char) :=
  o.toDict.map (Json.dumps Json.spaced)

/-! ## Equality -/

/-- `==` of frozen values: tuples are compared as lists are. -/
def Frozen.eq (a b : Frozen) : Bool := a.toJson.eq b.toJson

/-- `==` of two `frozenset`s. -/
def sameElements (s t : List Value) : Bool :=
  (s.all fun v => t.any v.eq) && t.all fun v => s.any v.eq

def WireFields.eq (f g : WireFields Frozen) : Bool :=
  f.peerId.eq g.peerId && f.epoch.eq g.epoch && f.timestamp.eq g.timestamp &&
  f.observerId.eq g.observerId && f.sequence.eq g.sequence &&
  f.observerProvenance.eq g.observerProvenance && f.observationType = g.observationType &&
  f.directStatus = g.directStatus && f.endpoint.eq g.endpoint &&
  f.endpointEpoch.eq g.endpointEpoch && f.lastHeartbeatTimestamp.eq g.lastHeartbeatTimestamp &&
  f.lastProbeTimestamp.eq g.lastProbeTimestamp && f.probeLatencyMs.eq g.probeLatencyMs &&
  f.route = g.route && f.probeResult.eq g.probeResult && f.relayProof.eq g.relayProof &&
  f.proofScore.eq g.proofScore && f.freshnessScore.eq g.freshnessScore &&
  f.witnessAgreement.eq g.witnessAgreement && f.witnessDisagreement.eq g.witnessDisagreement &&
  Json.eqItems f.backendCaps g.backendCaps && f.backendState = g.backendState &&
  f.backendStateTimestamp.eq g.backendStateTimestamp && f.ttlSeconds.eq g.ttlSeconds &&
  sameElements f.tags g.tags && f.notes.eq g.notes && f.sourceId.eq g.sourceId &&
  f.chainDepth.eq g.chainDepth

mutual

/-- `==` of observations. -/
def WireObservation.eq : WireObservation → WireObservation → Bool
  | .node f ws, .node g vs => f.eq g && eqAll ws vs

def WireObservation.eqAll : List WireObservation → List WireObservation → Bool
  | [], [] => true
  | w :: ws, v :: vs => w.eq v && eqAll ws vs
  | _, _ => false

end

end Perpetua.Membership

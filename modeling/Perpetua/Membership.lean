import Mathlib.Data.Finset.Sort
import Mathlib.Order.Lattice.Nat
import Mathlib.Data.String.Basic
import Perpetua.Lib.PyReal

/-!
# Peer observations

The model of `PeerObservation` in `orchestrator/membership.py`. An observation carries the
observations of its witnesses, a tree that the constructor keeps shallow.
-/

namespace Perpetua.Membership

/-! ## Enumerations -/

inductive DirectStatus
  | reachable | timeout | unreachable | stale | suspect | unknown | degraded
  deriving DecidableEq

inductive Route
  | direct | relay | discovered | staticSeed | passivelyLearned | unknown
  deriving DecidableEq

inductive BackendState
  | macDual | macOllamaOnly | winLmstudio | macNone | offline
  deriving DecidableEq

inductive ObservationType
  | reachable | unreachable
  deriving DecidableEq

def DirectStatus.value : DirectStatus → String
  | .reachable => "REACHABLE"
  | .timeout => "TIMEOUT"
  | .unreachable => "UNREACHABLE"
  | .stale => "STALE"
  | .suspect => "SUSPECT"
  | .unknown => "UNKNOWN"
  | .degraded => "DEGRADED"

def Route.value : Route → String
  | .direct => "direct"
  | .relay => "relay"
  | .discovered => "discovered"
  | .staticSeed => "static_seed"
  | .passivelyLearned => "passively_learned"
  | .unknown => "unknown"

def BackendState.value : BackendState → String
  | .macDual => "MAC_DUAL"
  | .macOllamaOnly => "MAC_OLLAMA_ONLY"
  | .winLmstudio => "WIN_LMSTUDIO"
  | .macNone => "MAC_NONE"
  | .offline => "OFFLINE"

def ObservationType.value : ObservationType → String
  | .reachable => "REACHABLE"
  | .unreachable => "UNREACHABLE"

/-! ## Observations -/

/-- `MAX_WITNESS_DEPTH`. -/
def maxWitnessDepth : ℕ := 2

/-- `MAX_CHAIN_DEPTH`. -/
def maxChainDepth : ℤ := 2

/-- The fields of an observation other than its witnesses. -/
structure Fields (φ : Type) [IntCast φ] where
  peerId : String
  epoch : ℤ
  timestamp : φ
  observerId : String
  observationType : ObservationType
  directStatus : DirectStatus
  endpoint : String
  endpointEpoch : ℤ
  sequence : ℤ := 0
  observerProvenance : String := ""
  lastHeartbeatTimestamp : Option φ := none
  lastProbeTimestamp : Option φ := none
  probeLatencyMs : Option φ := none
  route : Route := .unknown
  probeResult : Option (List (String × Json.Value)) := none
  relayProof : Option String := none
  proofScore : φ := (0 : ℤ)
  freshnessScore : φ := (0 : ℤ)
  witnessAgreement : ℤ := 0
  witnessDisagreement : ℤ := 0
  backendCaps : List String := []
  backendState : Option BackendState := none
  backendStateTimestamp : Option φ := none
  ttlSeconds : Option ℤ := some 60
  tags : Finset String := ∅
  notes : String := ""
  sourceId : Option String := none
  chainDepth : ℤ := 0

/-- An observation with its `witness_set`, before `__post_init__`. -/
inductive Tree (φ : Type) [IntCast φ]
  | node (fields : Fields φ) (witnessSet : List (Tree φ))

section

variable {φ : Type}

namespace Tree

variable [IntCast φ]

def fields : Tree φ → Fields φ
  | node fields _ => fields

def witnessSet : Tree φ → List (Tree φ)
  | node _ witnessSet => witnessSet

mutual

/-- `_compute_witness_depth`. -/
def depth : Tree φ → ℕ
  | node _ witnessSet => 1 + maxDepth witnessSet

/-- The depth of the deepest witness. -/
def maxDepth : List (Tree φ) → ℕ
  | [] => 0
  | w :: ws => Nat.max (depth w) (maxDepth ws)

end

end Tree

variable [PyReal φ]

/-- `_validate_bounds` and `_validate_chain_depth`. -/
def Fields.Valid (f : Fields φ) : Prop :=
  (((0 : ℤ) : φ) ≤ f.proofScore ∧ f.proofScore ≤ ((1 : ℤ) : φ)) ∧
    (((0 : ℤ) : φ) ≤ f.freshnessScore ∧ f.freshnessScore ≤ ((1 : ℤ) : φ)) ∧
    f.chainDepth ≤ maxChainDepth

mutual

/-- Every observation in the tree has passed `__post_init__`. -/
def Tree.Valid : Tree φ → Prop
  | .node fields witnessSet =>
      fields.Valid ∧ (Tree.node fields witnessSet).depth ≤ maxWitnessDepth ∧ AllValid witnessSet

def Tree.AllValid : List (Tree φ) → Prop
  | [] => True
  | w :: ws => w.Valid ∧ AllValid ws

end

end

/-- `PeerObservation`. -/
structure PeerObservation (φ : Type) [PyReal φ] where
  tree : Tree φ
  valid : tree.Valid

namespace PeerObservation

variable {φ : Type} [PyReal φ] (o : PeerObservation φ)

abbrev fields : Fields φ := o.tree.fields
abbrev peerId : String := o.fields.peerId
abbrev epoch : ℤ := o.fields.epoch
abbrev sequence : ℤ := o.fields.sequence
abbrev timestamp : φ := o.fields.timestamp
abbrev observerId : String := o.fields.observerId
abbrev observerProvenance : String := o.fields.observerProvenance
abbrev observationType : ObservationType := o.fields.observationType

/-- The observations of the witnesses. -/
def witnessSet : List (Fields φ) := o.tree.witnessSet.map Tree.fields

/-- `is_stale`, at the time given. -/
def isStale (now : φ) : Bool :=
  match o.fields.ttlSeconds with
  | none => false
  | some ttl => if ttl < 0 then false else (ttl : φ) < now - o.timestamp

end PeerObservation

/-! ## JSON -/

section Json

variable {φ : Type} [IntCast φ] [PyReal.Text φ]

def ofOption {α : Type*} (f : α → Json.Value) : Option α → Json.Value
  | none => .null
  | some a => f a

def number (x : φ) : Json.Value := .num (PyReal.Text.repr x)

def strings (l : List String) : Json.Value := .arr (l.map .str)

mutual

/-- `_to_dict`. -/
def Tree.toDict : Tree φ → Json.Value
  | .node f witnessSet => .obj
      [("peer_id", .str f.peerId), ("epoch", .num (.int f.epoch)), ("timestamp", number f.timestamp),
        ("observer_id", .str f.observerId), ("sequence", .num (.int f.sequence)),
        ("observer_provenance", .str f.observerProvenance),
        ("observation_type", .str f.observationType.value),
        ("direct_status", .str f.directStatus.value), ("endpoint", .str f.endpoint),
        ("endpoint_epoch", .num (.int f.endpointEpoch)),
        ("last_heartbeat_timestamp", ofOption number f.lastHeartbeatTimestamp),
        ("last_probe_timestamp", ofOption number f.lastProbeTimestamp),
        ("probe_latency_ms", ofOption number f.probeLatencyMs), ("route", .str f.route.value),
        ("probe_result", ofOption .obj f.probeResult), ("relay_proof", ofOption .str f.relayProof),
        ("proof_score", number f.proofScore), ("freshness_score", number f.freshnessScore),
        ("witness_agreement", .num (.int f.witnessAgreement)),
        ("witness_disagreement", .num (.int f.witnessDisagreement)),
        ("witness_set", .arr (toDicts witnessSet)), ("backend_caps", strings f.backendCaps),
        ("backend_state", ofOption (fun s => .str s.value) f.backendState),
        ("backend_state_timestamp", ofOption number f.backendStateTimestamp),
        ("ttl_seconds", ofOption (fun n => .num (.int n)) f.ttlSeconds),
        ("tags", strings (f.tags.sort (· ≤ ·))), ("notes", .str f.notes),
        ("source_id", ofOption .str f.sourceId), ("chain_depth", .num (.int f.chainDepth))]

def Tree.toDicts : List (Tree φ) → List Json.Value
  | [] => []
  | w :: ws => w.toDict :: toDicts ws

end

/-- `to_json`. -/
def PeerObservation.toJson {φ : Type} [PyReal φ] [PyReal.Text φ] (o : PeerObservation φ) :
    List Char :=
  Json.dumps Json.spaced o.tree.toDict

end Json

end Perpetua.Membership

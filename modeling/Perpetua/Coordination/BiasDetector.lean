import Mathlib.Data.Rat.Defs
import Perpetua.Heartbeat.Monitor
import Perpetua.Lib.Machine
import Perpetua.Lib.Polling

/-!
# The bias detector

The model of the history of `orchestrator/coordination/bias_detector.py` and of what feeds it. The
scores are computed from the history alone.
-/

namespace Perpetua.Coordination

open GossipBus Queue
open Json (Value)

/-- Python's `str` of a number or a container, `str.lower`, and SQLite's text of a container. -/
class BiasTexts where
  textOf : Value → String
  lower : String → String
  sqlText : Value → String

/-! ## CoordinationBiasDetector -/

structure Decision where
  confidence : ℚ
  text : String
  agentId : Option String
  deriving DecidableEq

structure BiasDetector where
  history : List Decision := []
  maxHistory : ℤ := 20
  /-- One id for each decision, in the order in which they were added. -/
  consumedEventIds : List ℤ := []

def BiasDetector.addDecision (d : BiasDetector) (confidence : ℚ) (reasoningText : String)
    (agentId : Option String) : BiasDetector :=
  { d with
    history := Polling.push d.maxHistory d.history
      { confidence, text := .ofList (reasoningText.toList.take 500), agentId } }

/-! ## Events -/

/-- A row of `gossip` with its id. -/
structure GossipEvent (τ : Type) where
  rowId : ℤ
  row : GossipRow τ

/-- The table: ids grow. -/
structure EventLog (τ : Type) where
  events : List (GossipEvent τ)
  ordered : (events.map GossipEvent.rowId).Pairwise (· < ·)

/-- `_HEARTBEAT_KINDS`. -/
def biasKinds : List String :=
  ["task_complete", "task_failed", "task_abandoned", "agent_killed", "agent_note"]

def positiveSignalWords : List String :=
  ["done", "complete", "completed", "green", "passed", "pushed", "verified", "merged"]

def negativeSignalWords : List String :=
  ["blocked", "fail", "failed", "error", "collision", "conflict"]

def negativeKinds : List String := ["task_failed", "task_abandoned", "agent_killed"]

/-- `re.findall(r"[a-z]+", …)`. -/
def lowerWords (s : String) : List String :=
  ((s.toList.splitOnP fun c => ¬ ('a' ≤ c ∧ c ≤ 'z')).filter (· ≠ [])).map .ofList

variable {τ : Type} [BiasTexts]

/-- `str` -/
def strOf : Value → String
  | .str s => s
  | v => BiasTexts.textOf v

/-- `_estimate_confidence` -/
def estimateConfidence (kind message : String) : ℚ :=
  if kind ∈ negativeKinds then 0.2
  else
    let words := lowerWords (BiasTexts.lower message)
    if words.any (· ∈ negativeSignalWords) then 0.2
    else if words.any (· ∈ positiveSignalWords) then 0.95
    else 0.6

/-- The first of the fields that is true. -/
def firstOf (p : Payload) (keys : List String) : String :=
  ((keys.filterMap (Entries.get? p)).find? Value.truthy).elim "" strOf

def kindOf (p : Payload) : String := (Entries.get? p "kind").elim "" strOf

def messageOf (p : Payload) : String := firstOf p ["message", "reason", "notes", "task", "task_id"]

def eventAgent (p : Payload) : Option String :=
  let agent := firstOf p ["agent_id", "assigned_agent", "source"]
  if agent = "" then none else some agent

/-- The event is not skipped. -/
def Speaks (e : GossipEvent τ) : Prop :=
  messageOf e.row.payload ≠ "" ∨ kindOf e.row.payload ∈ negativeKinds

instance (e : GossipEvent τ) : Decidable (Speaks e) := inferInstanceAs (Decidable (_ ∨ _))

/-- `json_extract(payload_json, '$.agent_id') = ?`. -/
def hasAgent (agentId : String) (p : Payload) : Bool :=
  match Entries.get? p "agent_id" with
  | some (.str s) => s == agentId
  | some (.arr items) => BiasTexts.sqlText (.arr items) == agentId
  | some (.obj fields) => BiasTexts.sqlText (.obj fields) == agentId
  | _ => false

/-- What the query of `fetch_bias_detector_events` selects. -/
def selects (agentId : Option String) (e : GossipEvent τ) : Bool :=
  Heartbeat.isHeartbeatOf biasKinds e.row && agentId.all (hasAgent · e.row.payload)

/-- `fetch_bias_detector_events` -/
def fetchBiasDetectorEvents (maxRows : ℤ) (agentId : Option String) (log : List (GossipEvent τ)) :
    List (GossipEvent τ) :=
  Polling.latest maxRows (log.filter (selects agentId))

/-! ## feed_bias_detector_from_gossip -/

def feedEvent (d : BiasDetector) (e : GossipEvent τ) : BiasDetector :=
  if e.rowId ∈ d.consumedEventIds then d
  else
    let p := e.row.payload
    let kind := kindOf p
    let message := messageOf p
    if message = "" ∧ kind ∉ negativeKinds then d
    else
      { d.addDecision (estimateConfidence kind message) message (eventAgent p) with
        consumedEventIds := d.consumedEventIds ++ [e.rowId] }

/-- The detector after a call on the events that the log holds then. -/
def feedBiasDetectorFromGossip (agentId : Option String) (log : List (GossipEvent τ))
    (d : BiasDetector) : BiasDetector :=
  (fetchBiasDetectorEvents d.maxHistory agentId log).foldl feedEvent d

/-- Calls at the times when the log has these numbers of events. -/
def feedAt (log : EventLog τ) (agentId : Option String) (d : BiasDetector) (count : ℕ) : BiasDetector :=
  feedBiasDetectorFromGossip agentId (log.events.take count) d

end Perpetua.Coordination

import Mathlib.Logic.Function.Basic
import Perpetua.GossipBus
import Perpetua.Lib.Machine
import Perpetua.Sqlite

/-!
# The LAN gossip bridge

The model of `orchestrator/lan_gossip_bridge.py`, of `GossipBus.emit` and of the `/gossip/emit`
endpoint. Every node has a bridge over its own log. A forwarded event is one POST for each peer,
which the network may deliver at any time and any number of times.
-/

namespace Perpetua.Gossip

open GossipBus

/-! ## The bus -/

/-- What a write meets: the database, the uuid it draws (32 hexadecimal digits) and the clock. -/
structure EmitEnv (τ : Type) where
  access : Access := .granted
  uuid : String
  now : τ
  uuid_ne_empty : uuid ≠ "" := by decide

/-- `_extract_forwarded_uuid`. -/
def extractForwardedUuid (payload : Payload) (eventUuid : Option String) :
    Payload × Option String :=
  match eventUuid with
  | some uuid => (payload, some uuid)
  | none =>
      match Entries.get? payload "_gossip_uuid" with
      | some (.str uuid) =>
          if uuid = "" then (payload, none)
          else (Entries.erase payload "_gossip_uuid", some uuid)
      | _ => (payload, none)

/-- `event_uuid or uuid.uuid4().hex`. -/
def uuidOr (eventUuid : Option String) (drawn : String) : String :=
  match eventUuid with
  | some uuid => if uuid = "" then drawn else uuid
  | none => drawn

section Bus

variable {τ : Type} [Redaction.UnicodeTables]

/-- `GossipBus.emit`: the log after it and the uuid it returns; `none` if it raises. -/
def busEmit (eventType : String) (payload : Payload) (eventUuid : Option String) (env : EmitEnv τ)
    (log : GossipLog τ) : Option (GossipLog τ × String) :=
  let (payload, eventUuid) := extractForwardedUuid payload eventUuid
  let uuid := uuidOr eventUuid env.uuid
  match env.access with
  | .granted => some ((insertEvent uuid env.now eventType payload log).1, uuid)
  | _ => none

end Bus

/-! ## The network -/

/-- A POST to `/gossip/emit` of a peer. -/
structure Post (ι : Type) where
  target : ι
  eventType : String
  payload : Payload
  uuid : String

/-- The logs of the nodes, and every POST that was ever sent. -/
structure Lan (τ ι : Type) where
  log : ι → GossipLog τ := fun _ => []
  inFlight : List (Post ι) := []

inductive LanAction (τ ι : Type)
  /-- `LanGossipBridge.emit` on a node. -/
  | emit (node : ι) (eventType : String) (payload : Payload) (env : EmitEnv τ)
  /-- The POST with this number reaches its target. -/
  | deliver (post : ℕ) (env : EmitEnv τ)

section Step

variable {τ ι : Type} [DecidableEq ι] [Redaction.UnicodeTables]

/-- What the peers are sent: the payload with the uuid inside, and the uuid beside it. -/
def forwarded (peers : List ι) (eventType : String) (payload : Payload) (uuid : String) :
    List (Post ι) :=
  peers.map fun peer =>
    { target := peer, eventType, payload := Entries.set payload "_gossip_uuid" (.str uuid), uuid }

/-- A step of the LAN, where `peers` are those each node is configured with. -/
def Lan.step (peers : ι → List ι) (s : Lan τ ι) : LanAction τ ι → Lan τ ι
  | .emit node eventType payload env =>
      match busEmit eventType payload none env (s.log node) with
      | none => s
      | some (log, uuid) =>
          { log := Function.update s.log node log
            inFlight := s.inFlight ++ forwarded (peers node) eventType payload uuid }
  | .deliver post env =>
      match s.inFlight[post]? with
      | none => s
      | some post =>
          match busEmit post.eventType post.payload (some post.uuid) env (s.log post.target) with
          | none => s
          | some (log, _) => { s with log := Function.update s.log post.target log }

end Step

end Perpetua.Gossip

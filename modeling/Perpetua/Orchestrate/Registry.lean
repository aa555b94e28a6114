import Mathlib.Data.List.Infix
import Perpetua.Orchestrate.Tracker

/-!
# The agent registry

The operations of `AgentTracker`, each with what the disk allows when it loads and when it saves, the map
that they are about, and the recruiting of `orchestrator/spawn_reconciliation.py` over any such store.
-/

namespace Perpetua.Orchestrate

variable {τ : Type}

/-! ## Operations -/

/-- What the disk allows an operation. -/
structure Access where
  load : Disk
  save : Disk

inductive Op (τ : Type)
  | listAgents (status : Option String)
  | findExisting (role : String) (taskHash : Option String)
  | register (agent : AgentRecord τ)
  | updateStatus (agentId status : String) (now : τ)
  | destroy (agentId : String)
  | destroyStopped

inductive Reply (τ : Type)
  | agents (agents : List (AgentRecord τ))
  | agent (agent : Option (AgentRecord τ))
  | destroyed (done : Bool)
  | removed (count : ℕ)

/-- The record with another status. -/
def AgentRecord.withStatus (a : AgentRecord τ) (status : String) (now : τ) : AgentRecord τ :=
  { a with status, updatedAt := now }

/-- A status that `find_existing` takes for live. -/
def isLiveStatus (status : String) : Bool := ["starting", "running", "idle"].contains status

/-- A status that `destroy_stopped` removes. -/
def isStopped (status : String) : Bool := ["stopped", "error"].contains status

/-- What an operation answers when it has loaded the agents. -/
def Op.reply (agents : Agents τ) : Op τ → Reply τ
  | .listAgents status =>
      .agents ((agents.map Prod.snd).filter fun a => status.all fun s => s = "" || a.status = s)
  | .findExisting role taskHash =>
      .agent ((agents.map Prod.snd).find? fun a =>
        a.role = role && isLiveStatus a.status && taskHash.all fun hash => a.taskHash = some hash)
  | .register agent => .agent (some agent)
  | .updateStatus agentId status now =>
      .agent ((Entries.get? agents agentId).map (·.withStatus status now))
  | .destroy agentId => .destroyed (Entries.get? agents agentId).isSome
  | .destroyStopped =>
      .removed (agents.length - (agents.filter fun e => !isStopped e.2.status).length)

/-- What an operation saves, if it saves, when it has loaded the agents. -/
def Op.saved (agents : Agents τ) : Op τ → Option (Agents τ)
  | .listAgents _ => none
  | .findExisting _ _ => none
  | .register agent => some (Entries.set agents agent.agentId agent)
  | .updateStatus agentId status now =>
      (Entries.get? agents agentId).map fun a => Entries.set agents agentId (a.withStatus status now)
  | .destroy agentId => (Entries.get? agents agentId).map fun _ => Entries.erase agents agentId
  | .destroyStopped => some (agents.filter fun e => !isStopped e.2.status)

/-- An operation of the tracker. -/
def Tracker.perform (t : Tracker τ) (op : Op τ) (access : Access) : Reply τ × Tracker τ :=
  let (agents, t) := t.load access.load
  (op.reply agents,
    match op.saved agents with
    | some agents => t.save access.save agents
    | none => t)

/-- The operations of a process, one after the other. -/
def Tracker.performAll (t : Tracker τ) : List (Op τ × Access) → List (Reply τ) × Tracker τ
  | [] => ([], t)
  | (op, access) :: ops =>
      let (reply, t) := t.perform op access
      let (replies, t) := t.performAll ops
      (reply :: replies, t)

/-- The tracker of a process that starts. -/
def Tracker.opened (file : RegistryFile τ) : Tracker τ := { file }

/-! ## The map -/

/-- An operation on the agents themselves. -/
def perform (agents : Agents τ) (op : Op τ) : Reply τ × Agents τ :=
  (op.reply agents, (op.saved agents).getD agents)

def performAll (agents : Agents τ) : List (Op τ) → List (Reply τ) × Agents τ
  | [] => ([], agents)
  | op :: ops =>
      let (reply, agents) := perform agents op
      let (replies, agents) := performAll agents ops
      (reply :: replies, agents)

/-! ## Recruiting -/

/-- `AIEndpoint`, as far as it is looked at. -/
structure AIEndpoint where
  host : String
  port : ℤ
  serverType : String
  models : List String

/-- What an endpoint meets that is recruited: a fresh identifier, and the clock. -/
structure Recruit (τ : Type) where
  agentId : String
  registeredAt : τ
  updatedAt : τ

/-- What the reconciler uses of a tracker. -/
structure Store (τ σ : Type) where
  listAgents : σ → List (AgentRecord τ) × σ
  register : AgentRecord τ → σ → σ
  updateStatus : String → String → τ → σ → Option (AgentRecord τ) × σ

def endpointKey (host : String) (port : ℤ) : String := host ++ ":" ++ .ofList (Json.intText port)

/-- `_infer_role`. -/
def inferRole (ep : AIEndpoint) : String :=
  if "coder".toList <:+: (String.join ep.models).toLower.toList then "recruited-coder"
  else if ep.serverType = "ollama" then "recruited-reasoner"
  else "recruited-agent"

/-- `known_endpoints`. -/
def knownEndpoints (known : List (AgentRecord τ)) : List String :=
  (known.filter fun a => ["running", "idle"].contains a.status).map fun a => endpointKey a.host a.port

/-- `_find_registry_match`. -/
def findRegistryMatch (ep : AIEndpoint) (known : List (AgentRecord τ)) : Option (AgentRecord τ) :=
  known.find? fun a => a.host = ep.host && a.port = ep.port

/-- The record that `register` makes for an endpoint. -/
def recruitAgent (ep : AIEndpoint) (recruit : Recruit τ) : AgentRecord τ :=
  { agentId := recruit.agentId
    role := inferRole ep
    model := ep.models.headD "unknown"
    backend := ep.serverType
    host := ep.host
    port := ep.port
    status := "starting"
    createdAt := recruit.registeredAt
    updatedAt := recruit.registeredAt
    metadata := [("source", .str "lan_discovery_recruit")] }

section Reconcile

variable {σ : Type} (S : Store τ σ)

/-- One endpoint of `reconcile_orphans`. -/
def reconcileOne (known : List (AgentRecord τ)) (ep : AIEndpoint) (recruit : Recruit τ) (s : σ) :
    Option (AgentRecord τ) × σ :=
  if endpointKey ep.host ep.port ∈ knownEndpoints known then (none, s)
  else
    match findRegistryMatch ep known with
    | some a => S.updateStatus a.agentId "running" recruit.updatedAt s
    | none =>
        let agent := recruitAgent ep recruit
        let (updated, s) := S.updateStatus agent.agentId "running" recruit.updatedAt (S.register agent s)
        (some (updated.getD agent), s)

def reconcileAll (known : List (AgentRecord τ)) :
    List (AIEndpoint × Recruit τ) → σ → List (AgentRecord τ) × σ
  | [], s => ([], s)
  | (ep, recruit) :: scan, s =>
      let (recruited, s) := reconcileOne S known ep recruit s
      let (rest, s) := reconcileAll known scan s
      (recruited.toList ++ rest, s)

/-- `reconcile_orphans`, with what the scan has found. -/
def reconcileOrphans (scan : List (AIEndpoint × Recruit τ)) (s : σ) : List (AgentRecord τ) × σ :=
  let (known, s) := S.listAgents s
  reconcileAll S known scan s

end Reconcile

/-- The tracker with what the disk allows its next operations. -/
def trackerStore : Store τ (Tracker τ × (ℕ → Access)) where
  listAgents s :=
    let (agents, t) := s.1.load (s.2 0).load
    (agents.map Prod.snd, t, fun i => s.2 (i + 1))
  register agent s := ((s.1.perform (.register agent) (s.2 0)).2, fun i => s.2 (i + 1))
  updateStatus agentId status now s :=
    let op := Op.updateStatus agentId status now
    ((Entries.get? (s.1.load (s.2 0).load).1 agentId).map (·.withStatus status now),
      (s.1.perform op (s.2 0)).2, fun i => s.2 (i + 1))

/-- The agents themselves. -/
def agentStore : Store τ (Agents τ) where
  listAgents agents := (agents.map Prod.snd, agents)
  register agent agents := (perform agents (.register agent)).2
  updateStatus agentId status now agents :=
    ((Entries.get? agents agentId).map (·.withStatus status now),
      (perform agents (.updateStatus agentId status now)).2)

end Perpetua.Orchestrate

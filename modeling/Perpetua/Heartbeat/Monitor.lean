import Perpetua.Lib.JsonEquality
import Perpetua.Lib.PyReal
import Perpetua.Queue.Board

/-!
# The heartbeat monitor

The model of `orchestrator/heartbeat_monitor.py` and of the posts of `coordination/claims.py` and
`coordination/liveness.py`. A cleanup judges the agents, reads the open claims and posts its releases
in separate steps.
-/

namespace Perpetua.Heartbeat

open GossipBus Queue

/-! ## Events -/

/-- `_AGENT_LIVENESS_KINDS`. -/
def agentLivenessKinds : List String :=
  ["agent_register", "agent_claim", "agent_release", "agent_killed", "agent_pulse"]

/-- `_AGENT_CLAIM_KINDS`. -/
def agentClaimKinds : List String := ["agent_claim", "agent_release"]

variable {τ : Type}

/-- The rows that `_fetch_heartbeat_events` selects. -/
def isHeartbeatOf (kinds : List String) (row : GossipRow τ) : Bool :=
  row.eventType = "heartbeat" && (field? row.payload "kind").any (· ∈ kinds)

/-- `_fetch_heartbeat_events`, for all agents. -/
def fetchHeartbeatEvents (kinds : List String) (log : GossipLog τ) : GossipLog τ :=
  log.filter (isHeartbeatOf kinds)

/-! ## Liveness -/

inductive LivenessStatus
  | active
  | idle
  | stalled
  | dead
  deriving DecidableEq

/-- What `find_agent_heartbeats` keeps of an agent; a value that is `null` is `None`. -/
structure AgentData (τ : Type) where
  workInProgress : Json.Value := .null
  lastRegistration : Payload := []
  registrationTs : Option τ := none
  killedReason : Json.Value := .null
  currentWorktree : Json.Value := .null
  lastHeartbeatTs : τ

/-- `p.get(k)`. -/
def valueOf (p : Payload) (k : String) : Json.Value := (Entries.get? p k).getD .null

/-- One event of `find_agent_heartbeats`; one without an agent is skipped, and one whose agent is a list
or an object raises. -/
def foldHeartbeat (agents : List (Json.Key × AgentData τ)) (row : GossipRow τ) :
    Option (List (Json.Key × AgentData τ)) :=
  let p := row.payload
  let agent := valueOf p "agent_id"
  if !agent.truthy then some agents
  else
    agent.key?.map fun key =>
      let known := (Entries.get? agents key).getD { lastHeartbeatTs := row.ts }
      let worktree := valueOf p "worktree"
      let data := { known with
        lastHeartbeatTs := row.ts
        currentWorktree := if worktree.truthy then worktree else known.currentWorktree }
      let kind := field? p "kind"
      Entries.set agents key
        (if kind = some "agent_register" then
          { data with lastRegistration := p, registrationTs := some row.ts, killedReason := .null }
        else if kind = some "agent_claim" then { data with workInProgress := valueOf p "task" }
        else if kind = some "agent_release" then
          if data.workInProgress.eq (valueOf p "task") then { data with workInProgress := .null }
          else data
        else if kind = some "agent_killed" then
          { data with
            workInProgress := .null
            killedReason := (Entries.get? p "reason").getD (.str "") }
        else if kind = some "agent_pulse" then { data with killedReason := .null }
        else data)

/-- `find_agent_heartbeats`, before it judges the agents. -/
def findAgentHeartbeats (log : GossipLog τ) : Option (List (Json.Key × AgentData τ)) :=
  (fetchHeartbeatEvents agentLivenessKinds log).foldlM foldHeartbeat []

section Liveness

variable [PyReal τ]

/-- `liveness_status`, without the seconds that it also returns. -/
def livenessStatus (now lastActivityTs : τ) : LivenessStatus :=
  let secondsSince := now - lastActivityTs
  if secondsSince < ((60 : ℤ) : τ) then .active
  else if secondsSince < ((300 : ℤ) : τ) then .idle
  else if secondsSince < ((1800 : ℤ) : τ) then .stalled
  else .dead

/-- An agent that was killed and has not come back is dead whatever its last activity. -/
def AgentData.status (now : τ) (data : AgentData τ) : LivenessStatus :=
  if !data.killedReason.isNull then .dead else livenessStatus now data.lastHeartbeatTs

/-- The ids of the dead agents. -/
def deadAgents (now : τ) (log : GossipLog τ) : Option (List Json.Key) :=
  (findAgentHeartbeats log).map fun agents =>
    (agents.filter fun e => e.2.status now = .dead).map Prod.fst

end Liveness

/-! ## Open claims -/

structure OpenClaim (τ : Type) where
  agentId : Json.Value
  task : Json.Value
  claimTs : τ
  worktree : Json.Value
  notes : Json.Value

/-- `p.get("task", "?")`. -/
def taskOf (p : Payload) : Json.Value := (Entries.get? p "task").getD (.str "?")

/-- The claim that an `agent_claim` event opens. -/
def openedBy (row : GossipRow τ) : OpenClaim τ :=
  { agentId := valueOf row.payload "agent_id"
    task := taskOf row.payload
    claimTs := row.ts
    worktree := valueOf row.payload "worktree"
    notes := (Entries.get? row.payload "notes").getD (.str "") }

/-- One event of `find_open_claims`: a release removes the claim of its task, whoever made it. A task that
is a list or an object raises. -/
def foldClaim (state : List (Json.Key × OpenClaim τ)) (row : GossipRow τ) :
    Option (List (Json.Key × OpenClaim τ)) :=
  (taskOf row.payload).key?.map fun task =>
    if field? row.payload "kind" = some "agent_claim" then Entries.set state task (openedBy row)
    else Entries.erase state task

/-- The claims that `find_open_claims` folds the events to, by task. -/
def openClaims (log : GossipLog τ) : Option (List (Json.Key × OpenClaim τ)) :=
  (fetchHeartbeatEvents agentClaimKinds log).foldlM foldClaim []

def findOpenClaims (log : GossipLog τ) : Option (List (OpenClaim τ)) :=
  (openClaims log).map fun state => state.map Prod.snd

/-- The claims of the dead agents; an agent that is a list or an object raises. -/
def staleClaims (dead : List Json.Key) (claims : List (OpenClaim τ)) : Option (List (OpenClaim τ)) :=
  if claims.all (·.agentId.key?.isSome) then
    some (claims.filter fun c => c.agentId.key?.any (· ∈ dead))
  else none

/-! ## Posts -/

/-- What an agent posts with one `emit`. -/
inductive Post
  | register (agentId agentType model worktree notes : String)
  | claim (agentId task worktree notes : String)
  | release (agentId task worktree : String)
  | pulse (agentId worktree : String) (timestamp : Json.Number)
  | kill (agentId worktree reason : String) (timestamp : Json.Number)

def Post.payload : Post → Payload
  | .register agentId agentType model worktree notes =>
      [("kind", .str "agent_register"), ("agent_id", .str agentId), ("agent_type", .str agentType),
        ("model", .str model), ("worktree", .str worktree), ("notes", .str notes)]
  | .claim agentId task worktree notes =>
      [("kind", .str "agent_claim"), ("agent_id", .str agentId), ("task", .str task),
        ("worktree", .str worktree), ("notes", .str notes)]
  | .release agentId task worktree =>
      [("kind", .str "agent_release"), ("agent_id", .str agentId), ("task", .str task),
        ("worktree", .str worktree)]
  | .pulse agentId worktree timestamp => presencePulsePayload agentId worktree timestamp
  | .kill agentId worktree reason timestamp =>
      [("kind", .str "agent_killed"), ("agent_id", .str agentId), ("worktree", .str worktree),
        ("reason", .str reason), ("timestamp", .num timestamp)]

/-- The release that a cleanup posts for a dead agent. -/
def autoReleasePayload (claim : OpenClaim τ) : Payload :=
  [("kind", .str "agent_release"), ("agent_id", claim.agentId), ("task", claim.task),
    ("worktree", claim.worktree), ("auto_released", .bool true),
    ("reason", .str "agent dead for 30+ min")]

/-! ## Interleaved cleanups -/

/-- Where a `cleanup_stale_claims` stands. -/
inductive Phase (τ : Type)
  | start
  /-- It has judged the agents. -/
  | judged (dead : List Json.Key)
  /-- The stale claims ahead, of the open claims in the log of `readAt` events. -/
  | releasing (readAt : ℕ) (todo : List (OpenClaim τ)) (released : List Json.Value)
  | finished (released : List Json.Value)
  | raised

structure System (τ ι : Type) where
  log : GossipLog τ := []
  phase : ι → Phase τ := fun _ => .start

inductive Action (τ ι : Type)
  | post (p : Post) (env : WriteEnv τ)
  /-- The next reading of the cleanup. -/
  | read (i : ι) (now : τ)
  /-- The next release of the cleanup. -/
  | release (i : ι) (env : WriteEnv τ)

section Step

variable {ι : Type} [DecidableEq ι] [PyReal τ] [Redaction.UnicodeTables]

/-- `GossipBus.emit` of a heartbeat; `none` is a `GossipBusError`. -/
def emit (payload : Payload) (env : WriteEnv τ) (log : GossipLog τ) : Option (GossipLog τ) :=
  match env.access with
  | .granted => some (insertEvent env.uuid env.now "heartbeat" payload log).1
  | _ => none

def System.move (s : System τ ι) (i : ι) (phase : Phase τ) : System τ ι :=
  { s with phase := Function.update s.phase i phase }

def stepRead (s : System τ ι) (i : ι) (now : τ) : System τ ι :=
  match s.phase i with
  | .start =>
      match deadAgents now s.log with
      | some dead => s.move i (.judged dead)
      | none => s.move i .raised
  | .judged dead =>
      match (findOpenClaims s.log).bind (staleClaims dead) with
      | some stale => s.move i (.releasing s.log.length stale [])
      | none => s.move i .raised
  | _ => s

def stepRelease (s : System τ ι) (i : ι) (env : WriteEnv τ) : System τ ι :=
  match s.phase i with
  | .releasing _ [] released => s.move i (.finished released)
  | .releasing readAt (claim :: todo) released =>
      match emit (autoReleasePayload claim) env s.log with
      | some log => { s with log }.move i (.releasing readAt todo (released ++ [claim.task]))
      | none => s.move i .raised
  | _ => s

def step (s : System τ ι) : Action τ ι → System τ ι
  | .post p env => { s with log := (emit p.payload env s.log).getD s.log }
  | .read i now => stepRead s i now
  | .release i env => stepRelease s i env

end Step

end Perpetua.Heartbeat

import Mathlib.Data.List.Sort
import Perpetua.Heartbeat.Posts

/-!
# The reorder buffer of claims

The model of `orchestrator/coordination/reorder_buffer.py` and of the claims and buffers of
`coordination/types.py`. A drain reads the buffers in one step and posts its marker in another.
-/

namespace Perpetua.Coordination

open GossipBus Queue

/-! ## Claims -/

structure ClaimSequence where
  agentId : String
  claimNum : ℤ
  task : String
  timestamp : Json.Number
  notes : String := ""
  worktree : String := ""
  deriving DecidableEq

def ClaimSequence.toPayload (claim : ClaimSequence) : Payload :=
  [("kind", .str "claim_sequence"), ("agent_id", .str claim.agentId),
    ("claim_num", .num (.int claim.claimNum)), ("task", .str claim.task),
    ("timestamp", .num claim.timestamp), ("notes", .str claim.notes),
    ("worktree", .str claim.worktree)]

def number? : Json.Value → Option Json.Number
  | .num n => some n
  | _ => none

/-- `from_payload`; `none` also where a field is not of the type that `to_payload` writes. -/
def ClaimSequence.fromPayload (p : Payload) : Option ClaimSequence := do
  let agentId ← field? p "agent_id"
  let claimNum ← (Entries.get? p "claim_num").bind asInt?
  let task ← field? p "task"
  let timestamp ← (Entries.get? p "timestamp").bind number?
  some
    { agentId, claimNum, task, timestamp
      notes := (field? p "notes").getD ""
      worktree := (field? p "worktree").getD "" }

/-! ## Buffers -/

structure ReorderBuffer where
  agentId : String
  buffer : List (ℤ × ClaimSequence) := []
  /-- The next expected sequence number. -/
  watermark : ℤ := 0

/-- The loop of `add_claim`: what it takes out of the buffer from a number on. -/
def emitRun : ℕ → List (ℤ × ClaimSequence) → ℤ →
    List ClaimSequence × List (ℤ × ClaimSequence) × ℤ
  | 0, buffer, next => ([], buffer, next)
  | fuel + 1, buffer, next =>
      match Entries.get? buffer next with
      | none => ([], buffer, next)
      | some claim =>
          let (emitted, rest, watermark) := emitRun fuel (Entries.erase buffer next) (next + 1)
          (claim :: emitted, rest, watermark)

/-- `add_claim`: the claims that it emits and the buffer after it. -/
def ReorderBuffer.addClaim (b : ReorderBuffer) (claim : ClaimSequence) :
    List ClaimSequence × ReorderBuffer :=
  if claim.claimNum < b.watermark then ([], b)
  else if claim.claimNum = b.watermark then
    let (emitted, buffer, watermark) := emitRun b.buffer.length b.buffer (b.watermark + 1)
    (claim :: emitted, { b with buffer, watermark })
  else if (Entries.get? b.buffer claim.claimNum).isSome then ([], b)
  else ([], { b with buffer := Entries.set b.buffer claim.claimNum claim })

/-- The claims of the buffer by number. -/
def ReorderBuffer.sortedClaims (b : ReorderBuffer) : List ClaimSequence :=
  (b.buffer.mergeSort fun e e' => e.1 ≤ e'.1).map Prod.snd

/-- `drain`: the claims that it emits and the new watermark. -/
def ReorderBuffer.drain (b : ReorderBuffer) : List ClaimSequence × ℤ :=
  match (b.buffer.map Prod.fst).max? with
  | none => ([], b.watermark)
  | some maxSeen => (b.sortedClaims, maxSeen + 1)

/-- What a drain marker does to the buffer. -/
def ReorderBuffer.markDrained (b : ReorderBuffer) (newWatermark : ℤ) : ReorderBuffer :=
  let watermark := max b.watermark newWatermark
  { b with watermark, buffer := b.buffer.filter fun e => ¬ e.1 < watermark }

/-! ## The fold -/

variable {τ : Type}

/-- `_REORDER_BUFFER_KINDS`. -/
def reorderBufferKinds : List String := ["claim_sequence", "buffer_drained"]

def foldReorderEvent (buffers : List (String × ReorderBuffer)) (row : GossipRow τ) :
    Option (List (String × ReorderBuffer)) :=
  let p := row.payload
  match field? p "agent_id" with
  | none => some buffers
  | some agent =>
      if agent = "" then some buffers
      else
        let b := (Entries.get? buffers agent).getD { agentId := agent }
        let kind := field? p "kind"
        if kind = some "claim_sequence" then
          (ClaimSequence.fromPayload p).map fun claim =>
            Entries.set buffers agent (b.addClaim claim).2
        else if kind = some "buffer_drained" then
          match (Entries.get? p "new_watermark").bind asInt? with
          | some newWatermark => some (Entries.set buffers agent (b.markDrained newWatermark))
          | none => some (Entries.set buffers agent b)
        else some (Entries.set buffers agent b)

/-- `get_reorder_buffers`; `none` is a claim that cannot be read. -/
def getReorderBuffers (log : GossipLog τ) : Option (List (String × ReorderBuffer)) :=
  (Heartbeat.fetchHeartbeatEvents reorderBufferKinds log).foldlM foldReorderEvent []

/-- The buffer that the log folds to for an agent. -/
def bufferOf (agent : String) (log : GossipLog τ) : ReorderBuffer :=
  ((getReorderBuffers log).bind (Entries.get? · agent)).getD { agentId := agent }

/-! ## Interleaved calls -/

/-- Where a `buffer_drain` stands. -/
inductive Drain
  | start
  /-- It has emitted the claims it read. -/
  | emitted (agentId : String) (claims : List ClaimSequence) (newWatermark : ℤ)
  /-- Its marker is in the log. -/
  | marked (agentId : String) (claims : List ClaimSequence)
  /-- It ended without a marker. -/
  | unmarked (agentId : String) (claims : List ClaimSequence)
  deriving DecidableEq

structure BufferSystem (τ ι : Type) where
  log : GossipLog τ := []
  drain : ι → Drain := fun _ => .start

inductive BufferAction (τ ι : Type)
  /-- A `claim_with_seq`; its readings only print. -/
  | claim (claim : ClaimSequence) (env : WriteEnv τ)
  /-- The reading of a drain. -/
  | read (i : ι) (agentId : String)
  /-- The marker of a drain. -/
  | mark (i : ι) (env : WriteEnv τ)

def drainMarker (agentId : String) (emittedCount : ℕ) (newWatermark : ℤ) : Payload :=
  [("kind", .str "buffer_drained"), ("agent_id", .str agentId),
    ("emitted_count", .num (.int emittedCount)), ("new_watermark", .num (.int newWatermark))]

section Step

variable {ι : Type} [DecidableEq ι] [Redaction.UnicodeTables]

def BufferSystem.move (s : BufferSystem τ ι) (i : ι) (drain : Drain) : BufferSystem τ ι :=
  { s with drain := Function.update s.drain i drain }

def BufferSystem.post (s : BufferSystem τ ι) (payload : Payload) (env : WriteEnv τ) :
    BufferSystem τ ι :=
  { s with log := (Heartbeat.emit payload env s.log).getD s.log }

/-- An agent without a buffer, and one whose buffer is empty, get no marker. -/
def readDrain (s : BufferSystem τ ι) (i : ι) (agentId : String) : BufferSystem τ ι :=
  match s.drain i, getReorderBuffers s.log with
  | .start, some buffers =>
      match Entries.get? buffers agentId with
      | none => s.move i (.unmarked agentId [])
      | some b =>
          if b.buffer = [] then s.move i (.unmarked agentId [])
          else s.move i (.emitted agentId b.drain.1 b.drain.2)
  | .start, none => s.move i (.unmarked agentId [])
  | _, _ => s

def markDrain (s : BufferSystem τ ι) (i : ι) (env : WriteEnv τ) : BufferSystem τ ι :=
  match s.drain i with
  | .emitted agentId claims newWatermark =>
      (s.post (drainMarker agentId claims.length newWatermark) env).move i
        (if Heartbeat.Adds env s.log then .marked agentId claims else .unmarked agentId claims)
  | _ => s

def BufferSystem.step (s : BufferSystem τ ι) : BufferAction τ ι → BufferSystem τ ι
  | .claim claim env => s.post claim.toPayload env
  | .read i agentId => readDrain s i agentId
  | .mark i env => markDrain s i env

end Step

end Perpetua.Coordination

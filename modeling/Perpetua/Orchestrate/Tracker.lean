import Perpetua.Lib.Json
import Perpetua.Lib.OrderedDict

/-!
# The agent tracker

The model of `AgentTracker` in `orchestrator/agent_tracker.py`. The records live in `agents.json`,
and in memory as soon as the file cannot be read or written.
-/

namespace Perpetua.Orchestrate

variable {τ : Type}

structure AgentRecord (τ : Type) where
  agentId : String
  role : String
  model : String
  backend : String
  host : String
  port : ℤ
  status : String
  createdAt : τ
  updatedAt : τ
  taskHash : Option String := none
  parentAgentId : Option String := none
  metadata : List (String × Json.Value) := []

abbrev Agents (τ : Type) := List (String × AgentRecord τ)

/-- `agents.json`; an entry that is no `AgentRecord` comes without one. Left out are the files at
which `_load` raises: bytes that are not UTF-8, numerals and nesting beyond Python's limits. -/
inductive RegistryFile (τ : Type)
  | missing
  | notJson
  | notMapping
  | entries (raw : List (String × Option (AgentRecord τ)))

/-- Whether the file can be read and written now. -/
structure Disk where
  reads : Bool
  writes : Bool
  deriving DecidableEq

structure Tracker (τ : Type) where
  file : RegistryFile τ := .missing
  memoryAgents : Agents τ := []
  persistEnabled : Bool := true

namespace Tracker

/-- `_save`. What a failed write leaves behind is not looked at again. -/
def save (t : Tracker τ) (disk : Disk) (agents : Agents τ) : Tracker τ :=
  if !t.persistEnabled then { t with memoryAgents := agents }
  else if disk.writes then
    { t with memoryAgents := agents, file := .entries (agents.map fun e => (e.1, some e.2)) }
  else { file := .notJson, memoryAgents := agents, persistEnabled := false }

/-- The entries that are records. -/
def valid (raw : List (String × Option (AgentRecord τ))) : Agents τ :=
  raw.filterMap fun e => e.2.map fun a => (e.1, a)

/-- `_load`. -/
def load (t : Tracker τ) (disk : Disk) : Agents τ × Tracker τ :=
  if !t.persistEnabled then (t.memoryAgents, t)
  else if !disk.reads then (t.memoryAgents, { t with persistEnabled := false })
  else
    match t.file with
    | .missing => ([], t)
    | .notJson => (t.memoryAgents, { t with persistEnabled := false })
    | .notMapping =>
        if disk.writes then ([], { t with file := .missing })
        else (t.memoryAgents, { t with persistEnabled := false })
    | .entries raw =>
        let agents := valid raw
        let t := if raw.any (·.2.isNone) then t.save disk agents else t
        (agents, { t with memoryAgents := agents })

end Tracker

/-- Whether the record is a live agent for the task. -/
def AgentRecord.isLiveFor (role taskHash : String) (a : AgentRecord τ) : Bool :=
  a.role = role && ["starting", "running", "idle"].contains a.status && a.taskHash = some taskHash

/-- `find_existing` with a task hash. -/
def Tracker.findExisting (t : Tracker τ) (disk : Disk) (role taskHash : String) :
    Option (AgentRecord τ) × Tracker τ :=
  let (agents, t) := t.load disk
  ((agents.map Prod.snd).find? (·.isLiveFor role taskHash), t)

/-- `register`. -/
def Tracker.register (t : Tracker τ) (disk : Disk) (agent : AgentRecord τ) : Tracker τ :=
  let (agents, t) := t.load disk
  t.save disk (Entries.set agents agent.agentId agent)

end Perpetua.Orchestrate

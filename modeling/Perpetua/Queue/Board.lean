import Mathlib.Logic.Function.Basic
import Perpetua.Lib.Machine
import Perpetua.GossipBus
import Perpetua.Sqlite

/-!
# The task queue

The model of `orchestrator/coordination/task_queue.py` over the gossip log and the table
`task_claims`. An operation reads the folded snapshots in one step and writes in another, so any
number of operations interleave between the two; each attempt at a write is one `BEGIN IMMEDIATE`
transaction.
-/

namespace Perpetua.Queue

open GossipBus

variable {τ : Type}

/-! ## Events and snapshots -/

/-- `_TASK_EVENT_KINDS`. -/
def taskEventKinds : List String :=
  ["task_enqueue", "task_claim", "task_complete", "task_failed", "task_abandoned"]

/-- A string field of a payload. -/
def field? (p : Payload) (k : String) : Option String := (Entries.get? p k).bind Json.Value.str?

/-- A row that `fetch_task_events` selects. -/
def isTaskEvent (row : GossipRow τ) : Bool :=
  row.eventType = "heartbeat" && (field? row.payload "kind").any (· ∈ taskEventKinds)

/-- `fetch_task_events`, oldest first. -/
def fetchTaskEvents (log : GossipLog τ) : GossipLog τ := log.filter isTaskEvent

abbrev Snapshots := List (String × Payload)

/-- One event of the fold: the fields of its payload overwrite those of its task. -/
def foldEvent (snapshots : Snapshots) (row : GossipRow τ) : Snapshots :=
  match field? row.payload "task_id" with
  | none => snapshots
  | some taskId =>
      if taskId = "" then snapshots
      else
        Entries.set snapshots taskId
          (Entries.update ((Entries.get? snapshots taskId).getD []) row.payload)

def latestTaskSnapshots (log : GossipLog τ) : Snapshots := (fetchTaskEvents log).foldl foldEvent []

/-! ## The board -/

/-- A row of `task_claims`. -/
structure ClaimRow (τ : Type) where
  taskId : String
  agentId : String
  claimedAt : τ
  deriving DecidableEq

structure Board (τ : Type) where
  log : GossipLog τ := []
  claims : List (ClaimRow τ) := []

/-! ## Adding a task -/

structure QueueAddArgs where
  taskName : String
  phase : String
  priority : String
  notes : String
  dependsOn : Option String := none
  sourceRef : Option String := none
  expectedBaseSha : Option String := none
  requiredAgentId : Option String := none

/-- The names and values of `TaskPriority`. -/
def taskPriorities : List (String × ℤ) := [("CRITICAL", 1), ("HIGH", 2), ("NORMAL", 3), ("LOW", 4)]

/-- `_SHA_RE.match`; the dollar sign also matches before a last newline. -/
def isSha (s : String) : Bool :=
  let hex := fun c : Char => c.isDigit || ('a' ≤ c && c ≤ 'f') || ('A' ≤ c && c ≤ 'F')
  let digits := if s.toList.getLast? = some '\n' then s.toList.dropLast else s.toList
  digits.all hex && 7 ≤ digits.length && digits.length ≤ 40

/-- `_validate_queue_add_args`. -/
def validateQueueAddArgs (a : QueueAddArgs) : Bool :=
  !a.sourceRef.any PyText.blank && a.expectedBaseSha.all isSha && !a.requiredAgentId.any PyText.blank

/-- The suffix is the first eight digits of a `uuid4`. -/
def taskIdOf (a : QueueAddArgs) (suffix : String) : String :=
  a.phase ++ "-" ++ a.taskName ++ "-" ++ suffix

/-- `[t.strip() for t in depends_on.split(",")] if depends_on else []`. -/
def dependsOnList (dependsOn : Option String) : List String :=
  match dependsOn with
  | none => []
  | some s => if s = "" then [] else (PyText.split ',' s).map PyText.strip

def optionalField (k : String) (v : Option String) : Payload :=
  match v with
  | none => []
  | some v => [(k, .str v)]

def enqueuePayload (a : QueueAddArgs) (taskId priorityName : String) (priorityLevel : ℤ) : Payload :=
  ([("kind", .str "task_enqueue"), ("task_id", .str taskId), ("task_name", .str a.taskName),
    ("phase", .str a.phase), ("priority", .str priorityName),
    ("priority_level", .num (.int priorityLevel)), ("status", .str "queued"),
    ("assigned_agent", .null), ("retry_count", .num (.int 0)), ("max_retries", .num (.int 3)),
    ("depends_on", .arr ((dependsOnList a.dependsOn).map .str)), ("notes", .str a.notes)] : Payload) ++
    optionalField "source_ref" (a.sourceRef.map PyText.strip) ++
    optionalField "expected_base_sha" a.expectedBaseSha ++
    optionalField "required_agent_id" (a.requiredAgentId.map PyText.strip)

/-- What a write reads from outside: the engine's answer, a fresh uuid and the time. -/
structure WriteEnv (τ : Type) where
  access : Access := .granted
  uuid : String
  now : τ

section Add

variable [Redaction.UnicodeTables]

/-- `str.upper`, up to equality with a priority's name: besides ASCII only the dotless i has one of
its letters as its upper case. -/
def upperName (s : String) : String := s.map fun c => if c = '\u0131' then 'I' else c.toUpper

/-- `queue_add`: a refused argument or an unknown priority leaves no event. -/
def queueAdd (a : QueueAddArgs) (suffix : String) (env : WriteEnv τ) (b : Board τ) : Board τ :=
  if !validateQueueAddArgs a then b
  else
    let name := upperName (PyText.strip a.priority)
    match Entries.get? taskPriorities name, env.access with
    | some level, .granted =>
        let payload := enqueuePayload a (taskIdOf a suffix) name level
        { b with log := (insertEvent env.uuid env.now "heartbeat" payload b.log).1 }
    | _, _ => b

end Add

/-! ## Operations -/

inductive Operation
  | claim (taskId agentId : String)
  | complete (taskId agentId notes : String)
  | fail (taskId agentId notes : String)
  | cleanup (deadAgentIds : List String)
  deriving DecidableEq

/-- Why an operation returns an error. -/
inductive Refusal
  | notFound
  | alreadyClaimed (claimant : Option String)
  | alreadyCompleted
  | abandoned
  | notClaimed (status : Option String)
  | notClaimant (claimant : Option String)
  | identityMismatch
  | reserved (requiredAgentId : String)
  | ambiguousDependencies (names : List String)
  | unmetDependencies (names : List String)
  | lostRace
  | contention
  deriving DecidableEq

/-- `int(value)` of a retry counter; the queue only writes integers. -/
def asInt? : Json.Value → Option ℤ
  | .num (.int n) => some n
  | .bool b => some (if b then 1 else 0)
  | _ => none

/-- `int(task_state.get(key, default))`. -/
def intField? (p : Payload) (k : String) (default : ℤ) : Option ℤ :=
  match Entries.get? p k with
  | none => some default
  | some v => asInt? v

/-! ### The checks of `queue_claim` -/

/-- The `depends_on` of a snapshot. -/
def dependencies (task : Payload) : List String :=
  match Entries.get? task "depends_on" with
  | some (.arr items) => items.filterMap Json.Value.str?
  | _ => []

/-- The snapshots of that `task_name`, in order. -/
def byTaskName (snapshots : Snapshots) (name : String) : List Payload :=
  (snapshots.map Prod.snd).filter fun state => name ≠ "" && field? state "task_name" = some name

inductive DependencyState
  | met
  | unmet
  | ambiguous
  deriving DecidableEq

def isCompleted (state : Payload) : Bool := field? state "status" = some "completed"

/-- A dependency is looked up as a task id first, then as a task name that only one task bears. -/
def dependencyState (snapshots : Snapshots) (dependency : String) : DependencyState :=
  match Entries.get? snapshots dependency with
  | some direct => if isCompleted direct then .met else .unmet
  | none =>
      match byTaskName snapshots dependency with
      | [] => .unmet
      | [state] => if isCompleted state then .met else .unmet
      | _ => .ambiguous

def checkDependencies (snapshots : Snapshots) (task : Payload) : Except Refusal Unit :=
  let named := fun s => (dependencies task).filter fun d => dependencyState snapshots d = s
  if named .ambiguous ≠ [] then .error (.ambiguousDependencies (named .ambiguous))
  else if named .unmet ≠ [] then .error (.unmetDependencies (named .unmet))
  else .ok ()

/-- The reservation of a task; `ptAgentId` is the environment's `PT_AGENT_ID`. -/
def checkReservation (task : Payload) (ptAgentId : Option String) (agentId : String) :
    Except Refusal Unit :=
  match field? task "required_agent_id" with
  | none => .ok ()
  | some required =>
      if ptAgentId.any (· ≠ agentId) then .error .identityMismatch
      else if required ≠ agentId then .error (.reserved required)
      else .ok ()

/-- The checks of `queue_claim`, all made on one reading of the snapshots. -/
def checkClaim (snapshots : Snapshots) (ptAgentId : Option String) (taskId agentId : String) :
    Except Refusal Unit :=
  match Entries.get? snapshots taskId with
  | none | some [] => .error .notFound
  | some task =>
      let status := field? task "status"
      if status = some "claimed" then .error (.alreadyClaimed (field? task "assigned_agent"))
      else if status = some "completed" then .error .alreadyCompleted
      else if status = some "abandoned" then .error .abandoned
      else do
        checkReservation task ptAgentId agentId
        checkDependencies snapshots task

/-- The checks of `queue_complete` and `queue_fail`, and the snapshot they let through. -/
def checkOwned (snapshots : Snapshots) (taskId agentId : String) : Except Refusal Payload :=
  match Entries.get? snapshots taskId with
  | none | some [] => .error .notFound
  | some task =>
      let status := field? task "status"
      if status = some "claimed" then
        if field? task "assigned_agent" = some agentId then .ok task
        else .error (.notClaimant (field? task "assigned_agent"))
      else if status = some "completed" then .error .alreadyCompleted
      else if status = some "abandoned" then .error .abandoned
      else .error (.notClaimed status)

/-! ### The events -/

def claimPayload (taskId agentId worktree : String) : Payload :=
  [("kind", .str "task_claim"), ("task_id", .str taskId), ("agent_id", .str agentId),
    ("assigned_agent", .str agentId), ("status", .str "claimed"), ("worktree", .str worktree)]

/-- Why a claim row is freed. -/
inductive Reason
  | complete (notes : String)
  | fail (retryCount maxRetries : ℤ) (notes : String)
  | abandon (retryCount maxRetries : ℤ) (notes : String)
  | agentDead (retryCount maxRetries : ℤ)
  deriving DecidableEq

/-- A pending `release_claim_with_event`; the row is freed only from the agent named. -/
structure Release where
  taskId : String
  agentId : String
  reason : Reason
  deriving DecidableEq

def Release.payload (r : Release) : Payload :=
  match r.reason with
  | .complete notes =>
      [("kind", .str "task_complete"), ("task_id", .str r.taskId), ("agent_id", .str r.agentId),
        ("status", .str "completed"), ("notes", .str notes)]
  | .fail retryCount maxRetries notes =>
      [("kind", .str "task_failed"), ("task_id", .str r.taskId), ("agent_id", .str r.agentId),
        ("retry_count", .num (.int retryCount)), ("max_retries", .num (.int maxRetries)),
        ("status", .str "queued"), ("assigned_agent", .null),
        ("notes", .str s!"Retry {retryCount}/{maxRetries}: {notes}")]
  | .abandon retryCount maxRetries notes =>
      [("kind", .str "task_abandoned"), ("task_id", .str r.taskId), ("agent_id", .str r.agentId),
        ("retry_count", .num (.int retryCount)), ("max_retries", .num (.int maxRetries)),
        ("status", .str "abandoned"), ("assigned_agent", .null),
        ("notes", .str s!"Abandoned after {maxRetries} retries: {notes}")]
  | .agentDead retryCount maxRetries =>
      [("kind", .str "task_failed"), ("task_id", .str r.taskId),
        ("retry_count", .num (.int retryCount)), ("max_retries", .num (.int maxRetries)),
        ("status", .str "queued"), ("assigned_agent", .null),
        ("notes", .str s!"Auto-released: agent {r.agentId} dead; task returned to queue")]

/-- `queue_fail`: back to the queue while retries are left. -/
def failReason (task : Payload) (notes : String) : Option Reason :=
  match intField? task "retry_count" 0, intField? task "max_retries" 3 with
  | some retries, some maxRetries =>
      if retries + 1 ≤ maxRetries then some (.fail (retries + 1) maxRetries notes)
      else some (.abandon (retries + 1) maxRetries notes)
  | _, _ => none

/-- The release of one row of a dead agent. -/
def deadRelease (snapshots : Snapshots) (row : ClaimRow τ) : Option Release :=
  let task := (Entries.get? snapshots row.taskId).getD []
  match intField? task "retry_count" 0, intField? task "max_retries" 3 with
  | some retries, some maxRetries => some ⟨row.taskId, row.agentId, .agentDead retries maxRetries⟩
  | _, _ => none

/-! ## Interleaved operations -/

/-- `_LOCK_RETRIES`. -/
def lockRetries : ℕ := 3

/-- How an operation ended. -/
inductive Outcome
  | ok
  | refused (why : Refusal)
  /-- `GossipBusError`, or any other exception; also a process that died. -/
  | raised
  | released (taskIds : List String)
  deriving DecidableEq

/-- Where an operation stands. -/
inductive Phase (τ : Type)
  | start
  /-- `cleanup_stale_queue_claims` after its SELECT, before it reads the snapshots. -/
  | listed (rows : List (ClaimRow τ))
  /-- The claim has passed its checks on the log of `readAt` events. -/
  | claiming (readAt attempt : ℕ) (worktree : String)
  /-- The releases ahead; `none` is one whose retry counters cannot be read. -/
  | releasing (attempt : ℕ) (todo : List (Option Release)) (released : List String)
  /-- The presence pulse is still to be emitted. -/
  | announcing
  | finished (outcome : Outcome)

structure System (τ ι : Type) where
  board : Board τ := {}
  phase : ι → Phase τ := fun _ => .start

inductive Action (τ ι : Type)
  | add (args : QueueAddArgs) (suffix : String) (env : WriteEnv τ)
  /-- The next reading of the operation. -/
  | read (i : ι) (ptAgentId : Option String) (worktree : String)
  /-- The next transaction of the operation. -/
  | attempt (i : ι) (env : WriteEnv τ)
  | announce (i : ι) (worktree : String) (timestamp : Json.Number) (env : WriteEnv τ)
  | abort (i : ι)

section Transactions

variable [Redaction.UnicodeTables]

/-- `try_atomic_claim` once the lock is held: `none` is the conflict with a row of the task. -/
def tryAtomicClaim (taskId agentId worktree : String) (env : WriteEnv τ) (b : Board τ) :
    Option (Board τ) :=
  if b.claims.any (·.taskId = taskId) then none
  else
    some
      { log := (insertEvent env.uuid env.now "heartbeat" (claimPayload taskId agentId worktree)
          b.log).1
        claims := b.claims ++ [⟨taskId, agentId, env.now⟩] }

/-- `release_claim_with_event` once the lock is held: `none` is a claim that has changed hands. -/
def releaseClaimWithEvent (r : Release) (env : WriteEnv τ) (b : Board τ) : Option (Board τ) :=
  let held := fun c : ClaimRow τ => c.taskId = r.taskId && c.agentId = r.agentId
  if b.claims.countP held = 1 then
    some
      { log := (insertEvent env.uuid env.now "heartbeat" r.payload b.log).1
        claims := b.claims.filter fun c => !held c }
  else none

/-- `_presence_pulse_payload`. -/
def presencePulsePayload (agentId worktree : String) (timestamp : Json.Number) : Payload :=
  [("kind", .str "agent_pulse"), ("agent_id", .str agentId), ("worktree", .str worktree),
    ("timestamp", .num timestamp)]

end Transactions

section Step

variable {ι : Type} [DecidableEq ι] [Redaction.UnicodeTables] (ops : ι → Operation)

def System.move (s : System τ ι) (i : ι) (phase : Phase τ) : System τ ι :=
  { s with phase := Function.update s.phase i phase }

/-- The release that `queue_complete` or `queue_fail` goes on with. -/
def ownedRelease (snapshots : Snapshots) (taskId agentId : String)
    (reason : Payload → Option Reason) : Except Outcome Release :=
  match checkOwned snapshots taskId agentId with
  | .error why => .error (.refused why)
  | .ok task =>
      match reason task with
      | some r => .ok ⟨taskId, agentId, r⟩
      | none => .error .raised

def stepRead (s : System τ ι) (i : ι) (ptAgentId : Option String) (worktree : String) :
    System τ ι :=
  let snapshots := latestTaskSnapshots s.board.log
  match ops i, s.phase i with
  | .claim taskId agentId, .start =>
      match checkClaim snapshots ptAgentId taskId agentId with
      | .ok _ => s.move i (.claiming s.board.log.length 0 worktree)
      | .error why => s.move i (.finished (.refused why))
  | .complete taskId agentId notes, .start =>
      match ownedRelease snapshots taskId agentId fun _ => some (.complete notes) with
      | .ok r => s.move i (.releasing 0 [some r] [])
      | .error o => s.move i (.finished o)
  | .fail taskId agentId notes, .start =>
      match ownedRelease snapshots taskId agentId fun task => failReason task notes with
      | .ok r => s.move i (.releasing 0 [some r] [])
      | .error o => s.move i (.finished o)
  | .cleanup dead, .start => s.move i (.listed (s.board.claims.filter (·.agentId ∈ dead)))
  | .cleanup _, .listed rows => s.move i (.releasing 0 (rows.map (deadRelease snapshots)) [])
  | _, _ => s

/-- Where a release goes on once its transaction has ended. -/
def afterRelease (op : Operation) (result : Except Refusal String)
    (todo : List (Option Release)) (released : List String) : Phase τ :=
  match op, result with
  | .cleanup _, .ok taskId => .releasing 0 todo (released ++ [taskId])
  | .cleanup _, .error _ => .releasing 0 todo released
  | _, .ok _ => .announcing
  | _, .error why => .finished (.refused why)

def stepAttempt (s : System τ ι) (i : ι) (env : WriteEnv τ) : System τ ι :=
  match s.phase i with
  | .claiming readAt attempt worktree =>
      match ops i with
      | .claim taskId agentId =>
          match env.access with
          | .failed => s.move i (.finished .raised)
          | .busy =>
              if attempt + 1 < lockRetries then s.move i (.claiming readAt (attempt + 1) worktree)
              else s.move i (.finished (.refused .contention))
          | .granted =>
              match tryAtomicClaim taskId agentId worktree env s.board with
              | some board => { s with board }.move i .announcing
              | none => s.move i (.finished (.refused .lostRace))
      | _ => s
  | .releasing _ [] released => s.move i (.finished (.released released))
  | .releasing _ (none :: _) _ => s.move i (.finished .raised)
  | .releasing attempt (some r :: todo) released =>
      match env.access with
      | .failed => s.move i (.finished .raised)
      | .busy =>
          if attempt + 1 < lockRetries then
            s.move i (.releasing (attempt + 1) (some r :: todo) released)
          else s.move i (afterRelease (ops i) (.error .contention) todo released)
      | .granted =>
          match releaseClaimWithEvent r env s.board with
          | some board =>
              { s with board }.move i (afterRelease (ops i) (.ok r.taskId) todo released)
          | none => s.move i (afterRelease (ops i) (.error .lostRace) todo released)
  | _ => s

/-- The agent whose presence the operation posts. -/
def Operation.agentId? : Operation → Option String
  | .claim _ agentId | .complete _ agentId _ | .fail _ agentId _ => some agentId
  | .cleanup _ => none

def stepAnnounce (s : System τ ι) (i : ι) (worktree : String) (timestamp : Json.Number)
    (env : WriteEnv τ) : System τ ι :=
  match s.phase i, (ops i).agentId?, env.access with
  | .announcing, some agentId, .granted =>
      { s with
        board.log := (insertEvent env.uuid env.now "heartbeat"
          (presencePulsePayload agentId worktree timestamp) s.board.log).1 }.move i (.finished .ok)
  | .announcing, _, _ => s.move i (.finished .raised)
  | _, _, _ => s

def step (s : System τ ι) : Action τ ι → System τ ι
  | .add args suffix env => { s with board := queueAdd args suffix env s.board }
  | .read i ptAgentId worktree => stepRead ops s i ptAgentId worktree
  | .attempt i env => stepAttempt ops s i env
  | .announce i worktree timestamp env => stepAnnounce ops s i worktree timestamp env
  | .abort i =>
      match s.phase i with
      | .finished _ => s
      | _ => s.move i (.finished .raised)

/-- The system after the steps, from an empty board with no operation under way. -/
def runSteps (steps : List (Action τ ι)) : System τ ι := Machine.run (step ops) {} steps

end Step

end Perpetua.Queue

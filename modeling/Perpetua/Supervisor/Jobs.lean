import Perpetua.Lib.Machine
import Perpetua.Lib.OrderedDict

/-!
# Jobs of the orchestration supervisor

The model of one job: its worker task, the requests to cancel it, the completion callback, and the
cleanup of its direct child, as they append to the jobs log. A step runs from one suspension of a
coroutine to the next. Of an event only the job, the status and whether it reports the containment
are kept.
-/

namespace Perpetua.Supervisor

inductive JobStatus
  | queued
  | running
  | waitingInput
  | succeeded
  | failed
  | cancelled
  deriving DecidableEq, Repr

/-- `_REPLAYABLE_STATUSES`. -/
def JobStatus.terminal : JobStatus → Bool
  | succeeded | failed | cancelled => true
  | _ => false

structure Event where
  jobId : String
  status : JobStatus
  /-- `worker_kind` and `containment_state` are there. -/
  annotated : Bool := false
  deriving DecidableEq, Repr

/-- `_latest_status_per_job`. -/
def latestStatusPerJob (events : List Event) : List (String × Event) :=
  events.foldl (fun states e => if e.jobId = "" then states else Entries.set states e.jobId e) []

def latest (jobId : String) (events : List Event) : Option Event :=
  Entries.get? (latestStatusPerJob events) jobId

/-- How `_append_event` ends: the line is in the file, it is not and the call raises, or it is and
the call raises (the line is flushed before `fsync`). -/
inductive Write
  | stored
  | lost
  | storedThenRaised
  deriving DecidableEq, Repr

def Write.raises (w : Write) : Bool := w ≠ .stored

/-- `_append_event`. -/
def appendEvent (log : List Event) (e : Event) (w : Write) : List Event :=
  if w = .lost then log else log ++ [e]

/-! ## States -/

/-- Where the worker task is. -/
inductive Worker
  | notStarted
  /-- It awaits `_dispatch`. -/
  | dispatching
  /-- It awaits `_record_to_gossip`, after SUCCEEDED inside the `try`, or after FAILED in a handler. -/
  | recording (succeeded : Bool)
  /-- The task is done; `task.cancelled()`. -/
  | done (cancelled : Bool)
  deriving DecidableEq, Repr

structure System where
  log : List Event
  worker : Worker := .notStarted
  cancelRequested : Bool := false
  /-- The task is in `_active`. -/
  active : Bool := true
  callbackPending : Bool := false
  /-- The job is in `_children`. -/
  child : Bool := false
  /-- The attempts that the running containment task has made. -/
  cleanup : Option ℕ := none
  /-- The job is in `_containment_cleanup_finished`. -/
  cleanupFinished : Bool := false
  /-- The calls of `cancel_with_terminal_state` that wait for the worker. -/
  confirming : ℕ := 0
  deriving DecidableEq, Repr

/-- Right after `submit_job`. -/
def submitted (jobId : String) (log : List Event) : System where
  log := log ++ [⟨jobId, .queued, false⟩]

/-! ## Operations -/

/-- The task ends; its callback is due. -/
def System.finish (s : System) (cancelled : Bool) : System :=
  { s with worker := .done cancelled, callbackPending := true }

/-- The `finally` of the worker, then the end of the task. -/
def System.leave (s : System) (cancelled : Bool) : System :=
  { s.finish cancelled with active := false }

/-- The handler that appends FAILED. -/
def System.fail (jobId : String) (s : System) (w : Write) : System :=
  let s := { s with log := appendEvent s.log ⟨jobId, .failed, false⟩ w }
  if w.raises then s.leave false else { s with worker := .recording false }

/-- The handler of `CancelledError`. -/
def System.abort (jobId : String) (s : System) (w : Write) : System :=
  let s := { s with log := appendEvent s.log ⟨jobId, .cancelled, false⟩ w }
  s.leave !w.raises

/-- How the await of `_dispatch` ends. -/
inductive Dispatched
  | returned
  /-- Also what the artifact raises; a `HardwareAffinityError` is a policy failure. -/
  | raised (policy : Bool)
  | cancelled
  deriving DecidableEq, Repr

/-- `_run_worker` up to its first await. -/
def System.start (jobId : String) (s : System) (w : Write) : System :=
  if s.worker ≠ .notStarted then s
  else if s.cancelRequested then s.finish true
  else
    let s := { s with log := appendEvent s.log ⟨jobId, .running, false⟩ w }
    if w.raises then s.finish false else { s with worker := .dispatching }

/-- `_run_worker` from the end of `_dispatch`. -/
def System.dispatched (jobId : String) (s : System) (o : Dispatched) (w w' : Write) : System :=
  if s.worker ≠ .dispatching then s
  else
    match o with
    | .cancelled => s.abort jobId w
    | .raised _ => s.fail jobId w
    | .returned =>
        let s := { s with log := appendEvent s.log ⟨jobId, .succeeded, false⟩ w }
        -- Inside the `try`: an append that raises is handled like any other exception.
        if w.raises then s.fail jobId w' else { s with worker := .recording true }

/-- `_run_worker` from the end of `_record_to_gossip`, which lets nothing but `CancelledError`
through. -/
def System.recorded (jobId : String) (s : System) (cancelled : Bool) (w : Write) : System :=
  match s.worker with
  | .recording succeeded =>
      if !cancelled then s.leave false
      else if succeeded then s.abort jobId w
      else s.leave true
  | _ => s

/-- `cancel`. -/
def System.cancel (s : System) : System :=
  match s.worker with
  | .done _ => s
  | _ => if s.active then { s with cancelRequested := true } else s

/-- `_ensure_containment_task`. -/
def System.ensureContainmentTask (jobId : String) (s : System) : System :=
  if s.cleanup.isSome then s
  else if (latest jobId s.log).any (fun e => e.status = .cancelled && e.annotated) then s
  else if s.cleanupFinished then s
  else { s with cleanup := some 0 }

def System.isCancelled (jobId : String) (s : System) : Bool :=
  (latest jobId s.log).any fun e => e.status = .cancelled

/-- What the callback and a confirmation both do for a cancelled task: CANCELLED is appended unless
the folded log shows it, then the cleanup is started. -/
def System.persistCancelled (jobId : String) (s : System) (w : Write) : System :=
  if s.isCancelled jobId then s.ensureContainmentTask jobId
  else
    let s := { s with log := appendEvent s.log ⟨jobId, .cancelled, false⟩ w }
    if w.raises then s else s.ensureContainmentTask jobId

/-- `_on_cancelled_worker_done`; `readable`: the jobs file can be read meanwhile. -/
def System.onCancelledWorkerDone (jobId : String) (s : System) (readable : Bool) (w : Write) :
    System :=
  if !s.callbackPending then s
  else
    let s := { s with callbackPending := false }
    if s.worker ≠ .done true then s
    else
      let s := { s with active := false }
      if readable then s.persistCancelled jobId w else s

/-- `cancel_with_terminal_state` up to its first await. -/
def System.cancelWithTerminalState (jobId : String) (s : System) (readable : Bool) : System :=
  if s.cleanup.isSome then s
  else
    let finished :=
      if readable && s.isCancelled jobId && s.child then s.ensureContainmentTask jobId else s
    match s.worker with
    | .done _ => finished
    | _ =>
        if s.active then { s with cancelRequested := true, confirming := s.confirming + 1 }
        else finished

/-- `cancel_with_terminal_state` after its wait for the worker, which may have timed out. -/
def System.confirm (jobId : String) (s : System) (readable : Bool) (w : Write) : System :=
  if s.confirming = 0 then s
  else
    let s := { s with confirming := s.confirming - 1 }
    if !readable then s
    else if s.worker = .done true then { s with active := false }.persistCancelled jobId w
    else if s.isCancelled jobId then s.ensureContainmentTask jobId
    else s

/-- `CONTAINMENT_ANNOTATION_ATTEMPTS`. -/
def containmentAnnotationAttempts : ℕ := 3

/-- One attempt of `_run_containment_cleanup`; it may raise before it appends. -/
def System.contain (jobId : String) (s : System) (outcome : Option Write) : System :=
  match s.cleanup with
  | none => s
  | some attempts =>
      let s :=
        match outcome with
        | none => s
        | some w => { s with log := appendEvent s.log ⟨jobId, .cancelled, true⟩ w }
      if outcome = some .stored then
        { s with cleanup := none, cleanupFinished := true, child := false }
      else if attempts + 1 = containmentAnnotationAttempts then
        { s with cleanup := none, cleanupFinished := true }
      else { s with cleanup := some (attempts + 1) }

/-! ## Steps -/

inductive Step
  /-- Another job appends. -/
  | other (e : Event)
  | start (w : Write)
  | dispatched (o : Dispatched) (w w' : Write)
  | recorded (cancelled : Bool) (w : Write)
  | cancel
  | cancelWithTerminalState (readable : Bool)
  | confirm (readable : Bool) (w : Write)
  | onCancelledWorkerDone (readable : Bool) (w : Write)
  | contain (outcome : Option Write)
  /-- `note_child` and `clear_child` of the command line workers. -/
  | noteChild
  | clearChild
  deriving DecidableEq, Repr

def step (jobId : String) (s : System) : Step → System
  | .other e => if e.jobId = jobId then s else { s with log := s.log ++ [e] }
  | .start w => s.start jobId w
  | .dispatched o w w' => s.dispatched jobId o w w'
  | .recorded cancelled w => s.recorded jobId cancelled w
  | .cancel => s.cancel
  | .cancelWithTerminalState readable => s.cancelWithTerminalState jobId readable
  | .confirm readable w => s.confirm jobId readable w
  | .onCancelledWorkerDone readable w => s.onCancelledWorkerDone jobId readable w
  | .contain outcome => s.contain jobId outcome
  | .noteChild => { s with child := true }
  | .clearChild => { s with child := false }

end Perpetua.Supervisor

import Perpetua.Supervisor.Jobs

/-!
# The jobs of a supervisor

All jobs of one supervisor: they share the jobs log, and `submit_job` counts the tasks in `_active`
against the thread ceiling. Job ids are drawn as uuids, so that no id is submitted twice.
-/

namespace Perpetua.Supervisor

/-- `MAX_THREADS`. -/
def maxThreads : ℕ := 25

/-- The jobs with their state; the log in the state of a job is as old as its last step. -/
structure Pool where
  log : List Event := []
  jobs : OrderedDict String System := .empty
  /-- The jobs of which an append of the terminal event has raised. Nothing reads it. -/
  unreported : List String := []

/-- A job as it sees the log. -/
def Pool.job? (s : Pool) (jobId : String) : Option System :=
  (s.jobs.get? jobId).map fun job => { job with log := s.log }

/-- `len(self._active)`. -/
def Pool.active (s : Pool) : ℕ := (s.jobs.entries.filter fun e => e.2.active).length

/-- `submit_job`; `allowed`: the depth and the affinity of the job pass. -/
def Pool.submit (s : Pool) (jobId : String) (allowed : Bool) (w : Write) : Pool :=
  if !allowed ∨ jobId ∈ s.jobs.keys then s
  else if maxThreads ≤ s.active then s
  else if w.raises then { s with log := appendEvent s.log ⟨jobId, .queued, false⟩ w }
  else
    let job := submitted jobId s.log
    { s with log := job.log, jobs := s.jobs.set jobId job }

/-- `_run_worker` up to its first await, with the `job_dir.mkdir` that follows the append of RUNNING
and like it comes before the `try`. -/
def System.startInDirectory (jobId : String) (s : System) (w : Write) (mkdirRaises : Bool) : System :=
  let next := s.start jobId w
  if mkdirRaises ∧ s.worker = .notStarted ∧ next.worker = .dispatching then next.finish false else next

/-- A step of one job. The directory matters to the start of its worker only, and what the other jobs
append is in their own steps. -/
def workStep (jobId : String) (s : System) (l : Step) (mkdirRaises : Bool) : System :=
  match l with
  | .start w => s.startInDirectory jobId w mkdirRaises
  | .other _ => s
  | l => step jobId s l

/-- The step appends the terminal event of the job, and the append raises. When SUCCEEDED cannot be
appended, FAILED is the terminal event. -/
def terminalAppendRaises (jobId : String) (s : System) : Step → Bool
  | .dispatched .returned w w' => s.worker = .dispatching && w.raises && w'.raises
  | .dispatched _ w _ => s.worker = .dispatching && w.raises
  | .recorded cancelled w => s.worker = .recording true && cancelled && w.raises
  | .onCancelledWorkerDone readable w =>
      s.callbackPending && s.worker = .done true && readable && !s.isCancelled jobId && w.raises
  | .confirm readable w =>
      s.confirming ≠ 0 && readable && s.worker = .done true && !s.isCancelled jobId && w.raises
  | _ => false

inductive PoolStep
  | submit (jobId : String) (allowed : Bool) (w : Write)
  | work (jobId : String) (l : Step) (mkdirRaises : Bool)
  deriving DecidableEq

def Pool.work (s : Pool) (jobId : String) (l : Step) (mkdirRaises : Bool) : Pool :=
  match s.job? jobId with
  | none => s
  | some job =>
      let next := workStep jobId job l mkdirRaises
      { log := next.log, jobs := s.jobs.set jobId next
        unreported := if terminalAppendRaises jobId job l then jobId :: s.unreported else s.unreported }

def poolStep (s : Pool) : PoolStep → Pool
  | .submit jobId allowed w => s.submit jobId allowed w
  | .work jobId l mkdirRaises => s.work jobId l mkdirRaises

end Perpetua.Supervisor

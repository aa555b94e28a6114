import Mathlib.Data.Rat.Defs
import Mathlib.Algebra.Order.Ring.Rat
import Mathlib.Logic.Function.Basic
import Perpetua.Lib.Machine

/-!
# Cloud probes

The model of the cloud part of `orchestrator/connectivity.py`: callers take a result from the cache, join
the refresh that is in flight, or lead a new one in the pool. What stands under `_cloud_lock` is one step;
between the steps the threads run in any order.
-/

namespace Perpetua.Connectivity

/-! ## Results -/

/-- The dictionary of a probe. -/
structure Result where
  ok : Bool
  statusCode : Option ℤ
  url : String
  error : Option String
deriving DecidableEq

/-- `_CLOUD_OK_TTL_S`. -/
def cloudOkTtl : ℚ := 60

/-- `_CLOUD_FAIL_TTL_S`. -/
def cloudFailTtl : ℚ := 15

def Result.ttl (r : Result) : ℚ := if r.ok then cloudOkTtl else cloudFailTtl

/-- `_failure_result`. -/
def failureResult (error : String) : Result :=
  { ok := false, statusCode := none, url := "", error := some error }

/-- How the probe function of a refresh ends. -/
inductive Outcome
  | returned (result : Result)
  /-- An `Exception` with its text. -/
  | raised (text : String)
  /-- Another `BaseException` with the name of its type. -/
  | aborted (type : String)

def Outcome.result : Outcome → Result
  | .returned result => result
  | .raised text => failureResult text
  | .aborted type => failureResult ("probe aborted: " ++ type)

/-! ## Refreshes -/

/-- Where the leader of a refresh stands. -/
inductive Lead
  | acquired
  | handed
  /-- `submit` has raised. -/
  | refused (error : String)
  /-- The marker is no longer this refresh. -/
  | withdrawn (error : String)
  | gaveUp
deriving DecidableEq

/-- Where `_cloud_refresh` stands in the pool. -/
inductive Work
  | absent
  | queued
  | running
  | finished (result : Result)
  /-- The cache is written; the future is not resolved by it yet. -/
  | published (time : ℚ) (result : Result)
  | ended (time : ℚ) (result : Result)
deriving DecidableEq

/-- A worker of the pool has the refresh. -/
def Work.Busy : Work → Bool
  | .running => true
  | .finished _ => true
  | .published _ _ => true
  | _ => false

/-- A refresh with its future. -/
structure Flight (ν : Type) where
  name : ν
  lead : Lead := .acquired
  work : Work := .absent
  value : Option Result := none
deriving DecidableEq

/-- `Future.set_result`, where the `InvalidStateError` of a second call is swallowed. -/
def Flight.setResult {ν : Type} (fl : Flight ν) (r : Result) : Flight ν :=
  { fl with value := some (fl.value.getD r) }

/-- An entry of `_cloud_cache`. -/
structure Entry where
  expires : ℚ
  result : Result
deriving DecidableEq

/-- How `submit` of the pool ends. It can raise with the work in the queue, when no thread starts. -/
inductive Submission
  | accepted
  | rejected (error : String)
  | orphaned (error : String)

/-- A caller of `_cloud_acquire`. -/
inductive Caller (ν : Type)
  | idle
  | served (name : ν) (time : ℚ) (result : Result)
  | waiting (name : ν) (flight : ℕ) (leader : Bool)
  | answered (name : ν) (flight : ℕ) (result : Result)
  | timedOut (name : ν) (flight : ℕ)
deriving DecidableEq

structure System (ν ι : Type) where
  now : ℚ := 0
  /-- `_cloud_cache`. -/
  cache : ν → Option Entry := fun _ => none
  /-- `_cloud_inflight`. -/
  inflight : ν → Option ℕ := fun _ => none
  next : ℕ := 0
  flights : ℕ → Option (Flight ν) := fun _ => none
  caller : ι → Caller ν := fun _ => .idle
  /-- When the probes have started, the latest first; nothing reads it. -/
  started : ν → List ℚ := fun _ => []

inductive Action (ν ι : Type)
  /-- The monotonic clock shows a time. -/
  | tick (time : ℚ)
  | acquire (i : ι) (name : ν)
  | submit (f : ℕ) (outcome : Submission)
  /-- The leader of a refused refresh removes the marker. -/
  | withdraw (f : ℕ)
  /-- The leader of a refused refresh resolves the future. -/
  | giveUp (f : ℕ)
  /-- A free worker takes the refresh. -/
  | start (f : ℕ)
  | finish (f : ℕ) (outcome : Outcome)
  /-- The refresh writes the cache and removes the marker. -/
  | publish (f : ℕ)
  /-- The refresh resolves the future. -/
  | resolve (f : ℕ)
  /-- The caller looks at its future, when it is resolved or at the deadline. -/
  | collect (i : ι)

variable {ν ι : Type} [DecidableEq ν] [DecidableEq ι]

def System.fly (s : System ν ι) (f : ℕ) (fl : Flight ν) : System ν ι :=
  { s with flights := Function.update s.flights f (some fl) }

def System.call (s : System ν ι) (i : ι) (c : Caller ν) : System ν ι :=
  { s with caller := Function.update s.caller i c }

/-- The entry that `_cloud_acquire` serves. -/
def System.fresh? (s : System ν ι) (name : ν) : Option Entry :=
  (s.cache name).filter fun e => s.now < e.expires

/-- `_cloud_acquire`. -/
def System.acquire (s : System ν ι) (i : ι) (name : ν) : System ν ι :=
  match s.fresh? name with
  | some e => s.call i (.served name s.now e.result)
  | none =>
      match s.inflight name with
      | some f => s.call i (.waiting name f false)
      | none =>
          { s with
            inflight := Function.update s.inflight name (some s.next)
            next := s.next + 1
            flights := Function.update s.flights s.next (some { name })
            caller := Function.update s.caller i (.waiting name s.next true) }

/-- The marker is removed where it is this refresh. -/
def System.unmark (s : System ν ι) (name : ν) (f : ℕ) : System ν ι :=
  { s with
    inflight := if s.inflight name = some f then Function.update s.inflight name none else s.inflight }

def Flight.submit (fl : Flight ν) : Submission → Flight ν
  | .accepted => { fl with lead := .handed, work := .queued }
  | .rejected error => { fl with lead := .refused error }
  | .orphaned error => { fl with lead := .refused error, work := .queued }

/-- `max_workers` of `_CLOUD_POOL`. -/
def cloudPoolWorkers : ℕ := 3

/-- How many workers have a refresh. -/
def System.busy (s : System ν ι) : ℕ :=
  (List.range s.next).countP fun f => (s.flights f).any fun fl => fl.work.Busy

/-- A worker takes a refresh and starts its probe. -/
def System.start (s : System ν ι) (f : ℕ) (fl : Flight ν) : System ν ι :=
  { s.fly f { fl with work := .running } with
    started := Function.update s.started fl.name (s.now :: s.started fl.name) }

/-- The `finally` of `_cloud_refresh` under the lock. -/
def System.publish (s : System ν ι) (f : ℕ) (fl : Flight ν) (r : Result) : System ν ι :=
  ({ s.fly f { fl with work := .published s.now r } with
    cache := Function.update s.cache fl.name (some ⟨s.now + r.ttl, r⟩) } : System ν ι).unmark fl.name f

/-- The leader of a refresh is through with it. -/
def Lead.Through : Lead → Bool
  | .handed => true
  | .gaveUp => true
  | _ => false

/-- How a caller that waits looks at its future. -/
def System.collect (s : System ν ι) (i : ι) (name : ν) (f : ℕ) (leader : Bool) : System ν ι :=
  match s.flights f with
  | none => s
  | some fl =>
      if leader && !fl.lead.Through then s
      else
        match fl.value with
        | some r => s.call i (.answered name f r)
        | none => s.call i (.timedOut name f)

def step (s : System ν ι) : Action ν ι → System ν ι
  | .tick time => { s with now := max s.now time }
  | .acquire i name =>
      match s.caller i with
      | .idle => s.acquire i name
      | _ => s
  | .submit f outcome =>
      match s.flights f with
      | some fl => if fl.lead = .acquired then s.fly f (fl.submit outcome) else s
      | none => s
  | .withdraw f =>
      match s.flights f with
      | some fl =>
          match fl.lead with
          | .refused error => (s.fly f { fl with lead := .withdrawn error }).unmark fl.name f
          | _ => s
      | none => s
  | .giveUp f =>
      match s.flights f with
      | some fl =>
          match fl.lead with
          | .withdrawn error => s.fly f
              ({ fl with lead := .gaveUp }.setResult (failureResult ("probe not scheduled: " ++ error)))
          | _ => s
      | none => s
  | .start f =>
      match s.flights f with
      | some fl => if fl.work = .queued ∧ s.busy < cloudPoolWorkers then s.start f fl else s
      | none => s
  | .finish f outcome =>
      match s.flights f with
      | some fl => if fl.work = .running then s.fly f { fl with work := .finished outcome.result } else s
      | none => s
  | .publish f =>
      match s.flights f with
      | some fl =>
          match fl.work with
          | .finished r => s.publish f fl r
          | _ => s
      | none => s
  | .resolve f =>
      match s.flights f with
      | some fl =>
          match fl.work with
          | .published time r => s.fly f ({ fl with work := .ended time r }.setResult r)
          | _ => s
      | none => s
  | .collect i =>
      match s.caller i with
      | .waiting name f leader => s.collect i name f leader
      | _ => s

/-- The state that the actions lead to. -/
def runActions (s : System ν ι) (actions : List (Action ν ι)) : System ν ι :=
  Machine.run step s actions

/-- The state behind a run of a process. -/
def after (actions : List (Action ν ι)) : System ν ι := runActions {} actions

/-- The names of `cloud_specs`. -/
inductive CloudBackend
  | perplexity | openrouter | anthropic
deriving DecidableEq

end Perpetua.Connectivity

import Mathlib.Algebra.Group.Int.Defs
import Perpetua.Lib.PyText
import Perpetua.Lib.Machine
import Perpetua.Sqlite

/-!
# The Tier-5 budget ledger

The model of `orchestrator/tier5_budget.py`: the two tables of the SQLite file and the operations
on them, each one `BEGIN IMMEDIATE` transaction. A transaction that raises is rolled back.

`time.time()` is read once for every value a call stores, so a call gets a sequence of readings;
the type `τ` of the readings is only compared. `digest` stands for the hexadecimal SHA-256.
-/

namespace Perpetua.Budget

/-! ## Tables -/

/-- The `state` column: RESERVED, DISPATCHED, SETTLED, RELEASED, CONSUMED_UNKNOWN. -/
inductive RunState
  | reserved
  | dispatched
  | settled
  | released
  | consumedUnknown
  deriving DecidableEq, Repr

/-- No operation moves a run out of these states. -/
def RunState.terminal : RunState → Bool
  | .settled | .released | .consumedUnknown => true
  | .reserved | .dispatched => false

/-- The states whose amounts count against the day. -/
def RunState.counted : RunState → Bool
  | .reserved | .dispatched | .settled | .consumedUnknown => true
  | .released => false

/-- A row of `tier5_budget_runs`. -/
structure BudgetRun (τ : Type) where
  runId : String
  keyDigest : String
  fingerprint : String
  utcDay : String
  state : RunState
  policyCapMicrousd : Int
  heldMicrousd : Int
  settledMicrousd : Int
  createdAt : τ
  updatedAt : τ
  deriving DecidableEq, Repr

/-- A row of `tier5_budget_stages`. -/
structure StageMarker (τ : Type) where
  runId : String
  stageName : String
  markerAt : τ
  deriving DecidableEq, Repr

structure LedgerDb (τ : Type) where
  runs : List (BudgetRun τ) := []
  stages : List (StageMarker τ) := []
  deriving DecidableEq, Repr

/-- The returned view of a row. -/
structure Reservation where
  runId : String
  keyDigest : String
  fingerprint : String
  state : RunState
  policyCapMicrousd : Int
  heldMicrousd : Int
  settledMicrousd : Int
  deriving DecidableEq, Repr

/-- The exceptions of the ledger. -/
inductive LedgerError
  /-- `ValueError` of the argument checks. -/
  | valueError (message : String)
  /-- `BudgetError`. -/
  | budgetError (message : String)
  /-- `BudgetError`: "cannot release {run_id!r}: not in RESERVED state (currently {state!r})". -/
  | notReserved (runId : String) (state : RunState)
  /-- `BudgetConflictError`. -/
  | conflict (message : String)
  /-- `BudgetInsufficientError`. -/
  | insufficient (message : String)
  /-- `BudgetUnavailableError`: the writer lock was not obtained. -/
  | unavailable (message : String)
  /-- `sqlite3.IntegrityError`: the run id is taken. -/
  | integrity
  /-- `OverflowError` or "integer overflow": a number leaves the 64 bits of an INTEGER. -/
  | overflow
  /-- Any other `sqlite3.OperationalError`. -/
  | operational
  deriving DecidableEq, Repr

/-- A ledger object. Its constructor rejects a limit that is not positive. -/
structure Tier5BudgetLedger where
  dailyLimitMicrousd : Int
  positive : 0 < dailyLimitMicrousd

def microusdPerUsd : Int := 1000000

/-! ## Transactions -/

/-- What a call reads from outside: the engine's answer and the clock. -/
structure CallEnv (τ : Type) where
  access : Access
  clock : ℕ → τ

variable {τ α : Type}

/-- `_guarded_transaction`: commit what the body returns, roll back what it raises. -/
def guardedTransaction (env : CallEnv τ) (db : LedgerDb τ)
    (body : LedgerDb τ → Except LedgerError (LedgerDb τ × α)) :
    LedgerDb τ × Except LedgerError α :=
  match env.access with
  | .busy => (db, .error (.unavailable "budget ledger is temporarily unavailable"))
  | .failed => (db, .error .operational)
  | .granted =>
      match body db with
      | .ok (db', a) => (db', .ok a)
      | .error e => (db, .error e)

def inInt64 (n : Int) : Bool := -2 ^ 63 ≤ n && n < 2 ^ 63

/-- `SUM` over integers, which fails as soon as a partial sum leaves 64 bits. -/
def sqliteSum (acc : Int) : List Int → Except LedgerError Int
  | [] => .ok acc
  | n :: ns => if inInt64 (acc + n) then sqliteSum (acc + n) ns else .error .overflow

/-! ## Queries -/

/-- `_row`. -/
def BudgetRun.toReservation (r : BudgetRun τ) : Reservation where
  runId := r.runId
  keyDigest := r.keyDigest
  fingerprint := r.fingerprint
  state := r.state
  policyCapMicrousd := r.policyCapMicrousd
  heldMicrousd := r.heldMicrousd
  settledMicrousd := r.settledMicrousd

/-! ## Updates of one row -/

namespace BudgetRun

/-- `SET state = 'DISPATCHED'`. -/
def dispatch (r : BudgetRun τ) (now : τ) : BudgetRun τ :=
  { r with state := .dispatched, updatedAt := now }

/-- `SET state = 'SETTLED', held_microusd = 0, settled_microusd = ?`. -/
def settle (r : BudgetRun τ) (settled : Int) (now : τ) : BudgetRun τ :=
  { r with state := .settled, heldMicrousd := 0, settledMicrousd := settled, updatedAt := now }

/-- `SET state = 'RELEASED', held_microusd = 0`. -/
def release (r : BudgetRun τ) (now : τ) : BudgetRun τ :=
  { r with state := .released, heldMicrousd := 0, updatedAt := now }

/-- `SET state = 'CONSUMED_UNKNOWN', settled_microusd = held_microusd, held_microusd = 0`. -/
def consume (r : BudgetRun τ) (now : τ) : BudgetRun τ :=
  { r with
    state := .consumedUnknown, settledMicrousd := r.heldMicrousd, heldMicrousd := 0,
    updatedAt := now }

end BudgetRun

namespace LedgerDb

def findRun (db : LedgerDb τ) (runId : String) : Option (BudgetRun τ) :=
  db.runs.find? (·.runId = runId)

def findKey (db : LedgerDb τ) (keyDigest : String) : Option (BudgetRun τ) :=
  db.runs.find? (·.keyDigest = keyDigest)

/-- The rows whose amounts count against `day`. -/
def countedOn (db : LedgerDb τ) (day : String) : List (BudgetRun τ) :=
  db.runs.filter fun r => r.utcDay = day && r.state.counted

/-- `is_stage_marked`. -/
def isStageMarked (db : LedgerDb τ) (runId stageName : String) : Bool :=
  db.stages.any fun s => s.runId = runId && s.stageName = stageName

/-- `has_stage_markers`. -/
def hasStageMarkers (db : LedgerDb τ) (runId : String) : Bool :=
  db.stages.any fun s => s.runId = runId

/-- `UPDATE tier5_budget_runs SET … WHERE …`. -/
def updateRuns (db : LedgerDb τ) (p : BudgetRun τ → Bool) (f : BudgetRun τ → BudgetRun τ) :
    LedgerDb τ :=
  { db with runs := db.runs.map fun r => if p r then f r else r }

end LedgerDb

/-! ## Operations -/

structure ReserveArgs where
  runId : String
  idempotencyKey : String
  fingerprint : String
  worstCaseMicrousd : Int
  explicitCapMicrousd : Option Int := none
  /-- `utc_day(now)`. -/
  day : String
  deriving DecidableEq, Repr

/-- The part of `reserve` inside the transaction. -/
def reserveBody (L : Tier5BudgetLedger) (digest : String → String) (now : τ) (a : ReserveArgs)
    (db : LedgerDb τ) : Except LedgerError (LedgerDb τ × Reservation) :=
  match db.findKey (digest a.idempotencyKey) with
  | some existing =>
      if existing.fingerprint ≠ a.fingerprint then
        .error (.conflict "idempotency key conflicts with an existing run")
      else .ok (db, existing.toReservation)
  | none =>
      match sqliteSum 0 ((db.countedOn a.day).map fun r => r.heldMicrousd + r.settledMicrousd) with
      | .error e => .error e
      | .ok used =>
          let remaining := L.dailyLimitMicrousd - used
          let ceiling := a.explicitCapMicrousd.getD (remaining - microusdPerUsd)
          let policyCap := if ceiling > remaining then remaining else ceiling
          if policyCap ≤ 0 ∨ a.worstCaseMicrousd > policyCap then
            .error (.insufficient "daily budget cannot cover the worst-case run")
          else if ¬ (inInt64 policyCap ∧ inInt64 a.worstCaseMicrousd) then .error .overflow
          else if (db.findRun a.runId).isSome then .error .integrity
          else
            let row : BudgetRun τ :=
              { runId := a.runId, keyDigest := digest a.idempotencyKey,
                fingerprint := a.fingerprint, utcDay := a.day, state := .reserved,
                policyCapMicrousd := policyCap, heldMicrousd := a.worstCaseMicrousd,
                settledMicrousd := 0, createdAt := now, updatedAt := now }
            .ok ({ db with runs := db.runs ++ [row] }, row.toReservation)

def reserve (L : Tier5BudgetLedger) (digest : String → String) (env : CallEnv τ) (a : ReserveArgs)
    (db : LedgerDb τ) : LedgerDb τ × Except LedgerError Reservation :=
  if PyText.blank a.runId ∨ PyText.blank a.idempotencyKey ∨ PyText.blank a.fingerprint then
    (db, .error (.valueError "run_id, idempotency_key, and fingerprint are required"))
  else if a.worstCaseMicrousd ≤ 0 then
    (db, .error (.valueError "worst_case_microusd must be a positive integer"))
  else if a.explicitCapMicrousd.any (· ≤ 0) then
    (db, .error (.valueError "explicit_cap_microusd must be a positive integer"))
  else guardedTransaction env db (reserveBody L digest (env.clock 0) a)

/-- `INSERT OR IGNORE` suppresses a repeated marker, not the foreign key to an unknown run. -/
def insertMarker (now : τ) (runId stageName : String) (db : LedgerDb τ) :
    Except LedgerError (LedgerDb τ) :=
  if db.isStageMarked runId stageName then .ok db
  else if (db.findRun runId).isNone then
    .error (.budgetError "cannot mark dispatch for an unknown budget run")
  else .ok { db with stages := db.stages ++ [⟨runId, stageName, now⟩] }

def markDispatchBody (clock : ℕ → τ) (runId stageName : String) (db : LedgerDb τ) :
    Except LedgerError (LedgerDb τ × Unit) :=
  match insertMarker (clock 0) runId stageName db with
  | .error e => .error e
  | .ok db =>
      .ok (db.updateRuns (fun r => r.runId = runId && r.state = .reserved) (·.dispatch (clock 1)), ())

def markDispatch (env : CallEnv τ) (runId stageName : String) (db : LedgerDb τ) :
    LedgerDb τ × Except LedgerError Unit :=
  guardedTransaction env db (markDispatchBody env.clock runId stageName)

/-- The amount `settle` charges; an unused amount outside the hold consumes all of it. -/
def settledAmount (held : Int) (unused : Option Int) : Int :=
  match unused with
  | none => held
  | some u => if u < 0 ∨ u > held then held else held - u

def settleBody (now : τ) (runId : String) (verifiedUnused : Option Int) (db : LedgerDb τ) :
    Except LedgerError (LedgerDb τ × Reservation) :=
  match db.findRun runId with
  | none => .error (.budgetError "budget run not found")
  | some row =>
      if row.state.terminal then .ok (db, row.toReservation)
      else
        let settled := settledAmount row.heldMicrousd verifiedUnused
        .ok (db.updateRuns (·.runId = runId) (·.settle settled now),
          (row.settle settled now).toReservation)

def settle (env : CallEnv τ) (runId : String) (verifiedUnused : Option Int) (db : LedgerDb τ) :
    LedgerDb τ × Except LedgerError Reservation :=
  guardedTransaction env db (settleBody (env.clock 0) runId verifiedUnused)

def releasePreDispatchBody (now : τ) (runId : String) (db : LedgerDb τ) :
    Except LedgerError (LedgerDb τ × Reservation) :=
  match db.findRun runId with
  | none => .error (.budgetError "budget run not found")
  | some existing =>
      if db.hasStageMarkers runId then
        .error (.budgetError "cannot release a run after dispatch was marked")
      else if existing.state ≠ .reserved then .error (.notReserved runId existing.state)
      else
        .ok (db.updateRuns (fun r => r.runId = runId && r.state = .reserved) (·.release now),
          (existing.release now).toReservation)

def releasePreDispatch (env : CallEnv τ) (runId : String) (db : LedgerDb τ) :
    LedgerDb τ × Except LedgerError Reservation :=
  guardedTransaction env db (releasePreDispatchBody (env.clock 0) runId)

/-- One `UPDATE … WHERE run_id = ?` for each selected run, the `k`th with the `k`th reading. -/
def updateEach (f : ℕ → BudgetRun τ → BudgetRun τ) :
    ℕ → List (BudgetRun τ) → LedgerDb τ → LedgerDb τ
  | _, [], db => db
  | k, row :: rows, db => updateEach f (k + 1) rows (db.updateRuns (·.runId = row.runId) (f k))

section Recover

variable [LT τ] [DecidableLT τ]

/-- The stale holds without a stage marker. -/
def LedgerDb.staleUnmarked (db : LedgerDb τ) (before : τ) : List (BudgetRun τ) :=
  db.runs.filter fun r =>
    r.state = .reserved && r.updatedAt < before && !db.hasStageMarkers r.runId

/-- The stale runs with a stage marker. -/
def LedgerDb.staleMarked (db : LedgerDb τ) (before : τ) : List (BudgetRun τ) :=
  db.runs.filter fun r =>
    (r.state = .reserved || r.state = .dispatched) && r.updatedAt < before &&
      db.hasStageMarkers r.runId

def recoverExpiredBody (clock : ℕ → τ) (before : τ) (db : LedgerDb τ) :
    Except LedgerError (LedgerDb τ × (ℕ × ℕ)) :=
  let unmarked := db.staleUnmarked before
  let marked := db.staleMarked before
  let released := updateEach (fun k r => r.release (clock k)) 0 unmarked db
  let consumed := updateEach (fun k r => r.consume (clock k)) unmarked.length marked released
  .ok (consumed, (unmarked.length, marked.length))

def recoverExpired (env : CallEnv τ) (before : τ) (db : LedgerDb τ) :
    LedgerDb τ × Except LedgerError (ℕ × ℕ) :=
  guardedTransaction env db (recoverExpiredBody env.clock before)

end Recover

/-! ## Calls of any number of clients -/

inductive Operation (τ : Type)
  | reserve (args : ReserveArgs)
  | markDispatch (runId stageName : String)
  | settle (runId : String) (verifiedUnused : Option Int)
  | releasePreDispatch (runId : String)
  | recoverExpired (before : τ)
  deriving DecidableEq, Repr

/-- A call of some client; the database file serializes the calls. -/
structure Call (τ : Type) where
  env : CallEnv τ
  op : Operation τ

section Step

variable [LT τ] [DecidableLT τ] (L : Tier5BudgetLedger) (digest : String → String)

/-- The tables after one call. -/
def step (db : LedgerDb τ) (c : Call τ) : LedgerDb τ :=
  match c.op with
  | .reserve a => (reserve L digest c.env a db).1
  | .markDispatch runId stageName => (markDispatch c.env runId stageName db).1
  | .settle runId unused => (settle c.env runId unused db).1
  | .releasePreDispatch runId => (releasePreDispatch c.env runId db).1
  | .recoverExpired before => (recoverExpired c.env before db).1

/-- The tables after the calls, from the tables `_initialize` creates. -/
def runCalls (calls : List (Call τ)) : LedgerDb τ := Machine.run (step L digest) {} calls

end Step

end Perpetua.Budget

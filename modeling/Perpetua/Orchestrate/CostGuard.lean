import Mathlib.Algebra.Order.Field.Rat
import Perpetua.Lib.Machine
import Perpetua.Lib.OrderedDict
import Perpetua.Lib.PyNumber

/-!
# The cost guard

The model of `orchestrator/cost_guard.py` in exact arithmetic. Each call runs under the lock, or
without an await, and is one step. The file belongs to one guard; after a failed read or write it is
not looked at again.
-/

namespace Perpetua.Orchestrate

/-- An amount that a caller gives. -/
inductive Amount
  | finite (q : ℚ)
  | nonfinite

/-- The budget as it is stored. -/
structure BudgetPayload where
  dailyBudget : ℚ
  dailySpend : ℚ
  lastReset : ℚ

/-- `_DEFAULT_BUDGET` with a time of the last reset. -/
def defaultBudget (lastReset : ℚ) : BudgetPayload := { dailyBudget := 25, dailySpend := 0, lastReset }

/-- A reserved amount, with the monotonic time of its reservation. -/
abbrev Reservation := ℚ × ℚ

/-- `CostGuard`, with its file. -/
structure CostGuard where
  file : Option BudgetPayload
  memoryState : BudgetPayload
  persistEnabled : Bool := true
  reserved : OrderedDict String Reservation := .empty

/-- What a call meets: its readings of the two clocks, the reservation id it draws, and which of its
accesses to the file fail. -/
structure GuardEnv where
  createdAt : ℚ
  now : ℚ
  resetAt : ℚ
  sweptAt : ℚ
  reservedAt : ℚ
  reservationId : String
  readFails : Bool := false
  createFails : Bool := false
  resetFails : Bool := false
  saveFails : Bool := false

inductive GuardError
  | valueError
  | budgetExceeded
  | unknownReservation
  deriving DecidableEq

/-- `RESERVATION_TTL_SECONDS`. -/
def reservationTtlSeconds : ℚ := 300

/-- `round(q, 6)`. -/
def round6 (q : ℚ) : ℚ := PyNumber.roundHalfEven (q * 1000000) / 1000000

namespace CostGuard

/-- A new guard over a file. -/
def opened (file : Option BudgetPayload) (createdAt : ℚ) : CostGuard :=
  { file, memoryState := defaultBudget createdAt }

/-! ## The payload -/

/-- `_save`. -/
def save (g : CostGuard) (payload : BudgetPayload) (fails : Bool) : CostGuard :=
  let g := { g with memoryState := payload }
  if !g.persistEnabled then g
  else if fails then { g with persistEnabled := false }
  else { g with file := some payload }

/-- `_load`. -/
def load (g : CostGuard) (env : GuardEnv) : CostGuard × BudgetPayload :=
  if !g.persistEnabled then (g, g.memoryState)
  else if env.readFails then ({ g with persistEnabled := false }, g.memoryState)
  else
    match g.file with
    | none => (g.save (defaultBudget env.createdAt) env.createFails, defaultBudget env.createdAt)
    | some payload => ({ g with memoryState := payload }, payload)

/-- The day of a payload is over. -/
def resetDue (env : GuardEnv) (payload : BudgetPayload) : Bool :=
  86400 ≤ env.now - payload.lastReset

/-- `_maybe_reset`. -/
def maybeReset (g : CostGuard) (payload : BudgetPayload) (env : GuardEnv) :
    CostGuard × BudgetPayload :=
  if resetDue env payload then
    let payload := { payload with dailySpend := 0, lastReset := env.resetAt }
    (g.save payload env.resetFails, payload)
  else (g, payload)

/-- `_maybe_reset(_load())`. -/
def current (g : CostGuard) (env : GuardEnv) : CostGuard × BudgetPayload :=
  let (g, payload) := g.load env
  g.maybeReset payload env

/-- `can_spend`. -/
def canSpend (g : CostGuard) (estimatedCost : ℚ) (env : GuardEnv) : CostGuard × Bool :=
  let (g, payload) := g.current env
  (g, payload.dailySpend + estimatedCost ≤ payload.dailyBudget)

/-! ## Reservations -/

/-- The sum of the outstanding reservations. -/
def inFlight (g : CostGuard) : ℚ := (g.reserved.entries.map (·.2.1)).sum

def expired (env : GuardEnv) (r : Reservation) : Bool := reservationTtlSeconds < env.sweptAt - r.2

/-- `_sweep_expired_reservations_locked`. -/
def sweep (g : CostGuard) (env : GuardEnv) : CostGuard :=
  { g with reserved := g.reserved.filterValues fun r => !expired env r }

/-- `reserve`. -/
def reserve (g : CostGuard) (estimatedCost : Amount) (env : GuardEnv) :
    CostGuard × Except GuardError String :=
  match estimatedCost with
  | .nonfinite => (g, .error .valueError)
  | .finite cost =>
      if cost < 0 then (g, .error .valueError)
      else
        let (g, payload) := (g.sweep env).current env
        if payload.dailyBudget < payload.dailySpend + g.inFlight + cost then
          (g, .error .budgetExceeded)
        else
          ({ g with reserved := g.reserved.set env.reservationId (cost, env.reservedAt) },
            .ok env.reservationId)

/-- `commit`. -/
def commit (g : CostGuard) (reservationId : String) (actualCost : Option Amount) (env : GuardEnv) :
    CostGuard × Except GuardError BudgetPayload :=
  match g.reserved.get? reservationId with
  | none => (g, .error .unknownReservation)
  | some (estimated, _) =>
      match actualCost.getD (.finite estimated) with
      | .nonfinite => (g, .error .valueError)
      | .finite amount =>
          if amount < 0 then (g, .error .valueError)
          else
            let g := { g with reserved := g.reserved.erase reservationId }
            let (g, payload) := g.current env
            let payload := { payload with dailySpend := round6 (payload.dailySpend + amount) }
            (g.save payload env.saveFails, .ok payload)

/-- `rollback`. -/
def rollback (g : CostGuard) (reservationId : String) : CostGuard × Except GuardError Unit :=
  match g.reserved.get? reservationId with
  | none => (g, .error .unknownReservation)
  | some _ => ({ g with reserved := g.reserved.erase reservationId }, .ok ())

end CostGuard

/-! ## Interleaved calls -/

inductive GuardCall
  | reserve (estimatedCost : Amount)
  | commit (reservationId : String) (actualCost : Option Amount)
  | rollback (reservationId : String)
  | sweep
  /-- `can_spend`; `alert_approaching` and `snapshot` do the same to the guard. -/
  | canSpend (estimatedCost : ℚ)

/-- What becomes of a reservation. -/
inductive GuardEvent
  | reserved (reservationId : String)
  /-- Committed, rolled back or swept. -/
  | settled (reservationId : String)
  deriving DecidableEq

/-- What a call leaves, the error it raises, and what becomes of reservations. -/
structure GuardOutcome where
  guard : CostGuard
  error : Option GuardError := none
  events : List GuardEvent := []

namespace CostGuard

/-- The settlement of the reservations that a sweep drops. -/
def sweptEvents (g : CostGuard) (env : GuardEnv) : List GuardEvent :=
  ((g.reserved.filterValues (expired env)).keys).map .settled

/-- What comes of a `reserve`: unless its argument is refused it has swept. -/
def reserveOutcome (swept : List GuardEvent) :
    CostGuard × Except GuardError String → GuardOutcome
  | (guard, .ok reservationId) => { guard, events := swept ++ [.reserved reservationId] }
  | (guard, .error .budgetExceeded) => { guard, error := some .budgetExceeded, events := swept }
  | (guard, .error e) => { guard, error := some e }

/-- What comes of a `commit` or a `rollback`. -/
def settleOutcome {α : Type} (reservationId : String) :
    CostGuard × Except GuardError α → GuardOutcome
  | (guard, .ok _) => { guard, events := [.settled reservationId] }
  | (guard, .error e) => { guard, error := some e }

def call (g : CostGuard) (c : GuardCall × GuardEnv) : GuardOutcome :=
  match c.1 with
  | .reserve estimatedCost => reserveOutcome (g.sweptEvents c.2) (g.reserve estimatedCost c.2)
  | .commit reservationId actualCost =>
      settleOutcome reservationId (g.commit reservationId actualCost c.2)
  | .rollback reservationId => settleOutcome reservationId (g.rollback reservationId)
  | .sweep => { guard := g.sweep c.2, events := g.sweptEvents c.2 }
  | .canSpend estimatedCost => { guard := (g.canSpend estimatedCost c.2).1 }

/-- The guard after a call. -/
def step (g : CostGuard) (c : GuardCall × GuardEnv) : CostGuard := (g.call c).guard

end CostGuard

end Perpetua.Orchestrate

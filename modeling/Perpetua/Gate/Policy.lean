import Mathlib.Data.Rat.Defs
import Perpetua.Lib.PyText

/-!
# The frugality gate

The model of `gate_permits` and of what it consults for a tier that is known up front.
-/

namespace Perpetua.Gate

/-- What the caller and the environment say about one consultation. -/
structure Request where
  /-- `is_offline_mode()`. -/
  offline : Bool
  privacyCritical : Bool := false
  overrideConfirmed : Bool := false
  overrideReason : Option String := none
  deriving DecidableEq, Repr

structure ResolvedRoute where
  tier : ℤ
  backend : Option String := none
  model : Option String := none
  estCostUsd : ℚ := 0
  fallbackChain : List ℤ := []
  escalationReason : Option String := none
  deriving DecidableEq

structure GateDecision where
  hasRoute : Bool
  route : Option ResolvedRoute := none
  deniedReason : Option String := none
  deriving DecidableEq

/-- `max_allowed_tier`. -/
def maxAllowedTier (r : Request) : ℤ :=
  if r.offline then 2 else if r.privacyCritical then 3 else 6

/-- A confirmed override with a reason; airgapped calls ignore it. -/
def Request.hasOverride (r : Request) : Bool :=
  r.overrideConfirmed && r.overrideReason.any fun s => !PyText.blank s

/-- `_ceiling_for`. -/
def ceilingFor (r : Request) : ℤ :=
  if r.privacyCritical && r.hasOverride && !r.offline then 6 else maxAllowedTier r

/-- `_override_required_reason`. -/
def overrideRequiredReason (tier ceiling : ℤ) (offline : Bool) : String :=
  if offline then
    "tier " ++ toString tier ++ " exceeds the ORAMASYS_OFFLINE=1 ceiling (tier " ++
      toString ceiling ++ "); ORAMASYS_OFFLINE is a hard local-only airgap and is never " ++
      "overridable by override_confirmed"
  else
    "tier " ++ toString tier ++ " exceeds the default policy ceiling (tier " ++
      toString ceiling ++ "); override_confirmed=True and a non-empty override_reason are " ++
      "required to escalate past it -- obtain human confirmation first " ++
      "(AskUserQuestion in an agent context, or a CLI/dashboard " ++
      "confirmation modal in an operator context) before setting them"

/-- `_consult_by_known_tier`. -/
def consultByKnownTier (r : Request) (tier : ℤ) (modelHint : Option String := none) :
    GateDecision :=
  if ceilingFor r < tier then
    { hasRoute := false
      deniedReason := some (overrideRequiredReason tier (ceilingFor r) r.offline) }
  else { hasRoute := true, route := some { tier := tier, model := modelHint } }

/-- `gate_permits`: whether the tier may be dispatched, and why not. -/
def gatePermits (r : Request) : Option ℤ → Bool × Option String
  | none => (true, none)
  | some tier => ((consultByKnownTier r tier).hasRoute, (consultByKnownTier r tier).deniedReason)

end Perpetua.Gate

import Perpetua.Lib.PyReal

/-!
# Reputation

The model of `orchestrator/reputation.py`.
-/

namespace Perpetua.Transition

/-- `ReputationLedger`. -/
structure ReputationLedger (φ : Type) where
  neutralDefault : φ
  scores : OrderedDict String φ := .empty

namespace ReputationLedger

variable {φ : Type} [PyReal φ]

/-- `record_outcome`. -/
def recordOutcome (ledger : ReputationLedger φ) (observerId : String) (correct : Bool)
    (weight : φ) : ReputationLedger φ :=
  let score := (ledger.scores.get? observerId).getD ((0 : ℤ) : φ)
  let score := if correct then score + weight else score - ((5 : ℤ) : φ) * weight
  { ledger with scores := ledger.scores.set observerId score }

/-- `record_equivocation`. -/
def recordEquivocation (ledger : ReputationLedger φ) (observerId : String) : ReputationLedger φ :=
  ledger.recordOutcome observerId false ((5 : ℤ) : φ)

/-- `reputation_weight`. -/
def reputationWeight (ledger : ReputationLedger φ) (observerId : String) : φ :=
  match ledger.scores.get? observerId with
  | none => ledger.neutralDefault
  | some score => PyReal.max ((0 : ℤ) : φ) (score / ((10 : ℤ) : φ))

end ReputationLedger

end Perpetua.Transition

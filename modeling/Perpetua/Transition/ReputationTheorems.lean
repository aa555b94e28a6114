import Mathlib.Algebra.Order.Field.Basic
import Mathlib.Data.List.Induction
import Mathlib.Tactic.NormNum
import Perpetua.Transition.Reputation

/-!
# Theorems about reputation

Recording an outcome moves a scored observer's weight the right way. The first outcome of an observer
replaces the neutral default by the weight of that outcome.
-/

namespace Perpetua.Transition

/-- A call of `record_outcome` or of `record_equivocation`. -/
inductive ReputationCall
  | outcome (observerId : String) (correct : Bool) (weight : ℚ)
  | equivocation (observerId : String)

namespace ReputationCall

def observerId : ReputationCall → String
  | outcome observerId _ _ => observerId
  | equivocation observerId => observerId

def correct : ReputationCall → Bool
  | outcome _ correct _ => correct
  | equivocation _ => false

/-- The weight that the call is recorded with. -/
def weight : ReputationCall → ℚ
  | outcome _ _ weight => weight
  | equivocation _ => 5

end ReputationCall

def recordCall (ledger : ReputationLedger ℚ) : ReputationCall → ReputationLedger ℚ
  | .outcome observerId correct weight => ledger.recordOutcome observerId correct weight
  | .equivocation observerId => ledger.recordEquivocation observerId

/-- The ledger that a history of calls leaves. -/
def ledgerAfter (neutralDefault : ℚ) (history : List ReputationCall) : ReputationLedger ℚ :=
  history.foldl recordCall { neutralDefault }

/-! ## One call -/

variable {ledger : ReputationLedger ℚ}

theorem recordCall_eq (call : ReputationCall) :
    recordCall ledger call = ledger.recordOutcome call.observerId call.correct call.weight := by
  cases call with
  | outcome observerId correct weight => rfl
  | equivocation observerId => rfl

/-- What a call adds to the score. -/
def ReputationCall.gain (call : ReputationCall) : ℚ :=
  if call.correct then call.weight else -(5 * call.weight)

theorem get?_recordCall (call : ReputationCall) (observerId : String) :
    (recordCall ledger call).scores.get? observerId =
      if call.observerId = observerId then
        some ((ledger.scores.get? call.observerId).getD 0 + call.gain)
      else ledger.scores.get? observerId := by
  rw [recordCall_eq, ReputationLedger.recordOutcome, OrderedDict.get?_set]
  refine if_congr Iff.rfl (congrArg some ?_) rfl
  unfold ReputationCall.gain
  split
  · simp
  · simp [sub_eq_add_neg]

theorem neutralDefault_recordCall (call : ReputationCall) :
    (recordCall ledger call).neutralDefault = ledger.neutralDefault := by
  rw [recordCall_eq]
  rfl

theorem weight_of_score {observerId : String} {score : ℚ}
    (h : ledger.scores.get? observerId = some score) :
    ledger.reputationWeight observerId = max 0 (score / 10) := by
  rw [ReputationLedger.reputationWeight, h]
  simp [PyReal.max_exact]

theorem weight_of_unscored {observerId : String} (h : ledger.scores.get? observerId = none) :
    ledger.reputationWeight observerId = ledger.neutralDefault := by
  rw [ReputationLedger.reputationWeight, h]

/-- A call says nothing about other observers. -/
theorem weight_recordCall_of_ne {call : ReputationCall} {other : String}
    (h : call.observerId ≠ other) :
    (recordCall ledger call).reputationWeight other = ledger.reputationWeight other := by
  unfold ReputationLedger.reputationWeight
  rw [get?_recordCall, if_neg h, neutralDefault_recordCall]

theorem weight_recordCall_self (call : ReputationCall) :
    (recordCall ledger call).reputationWeight call.observerId =
      max 0 (((ledger.scores.get? call.observerId).getD 0 + call.gain) / 10) := by
  apply weight_of_score
  rw [get?_recordCall, if_pos rfl]

/-! ## Histories -/

theorem ledgerAfter_append_singleton (neutralDefault : ℚ) (history : List ReputationCall)
    (call : ReputationCall) :
    ledgerAfter neutralDefault (history ++ [call]) =
      recordCall (ledgerAfter neutralDefault history) call := by
  simp [ledgerAfter]

theorem neutralDefault_ledgerAfter (neutralDefault : ℚ) (history : List ReputationCall) :
    (ledgerAfter neutralDefault history).neutralDefault = neutralDefault := by
  induction history using List.reverseRecOn with
  | nil => rfl
  | append_singleton history call ih =>
      rw [ledgerAfter_append_singleton, neutralDefault_recordCall, ih]

/-- The scored observers are those that some call was about. -/
theorem scored_iff (neutralDefault : ℚ) {history : List ReputationCall} {observerId : String} :
    ((ledgerAfter neutralDefault history).scores.get? observerId).isSome ↔
      ∃ call ∈ history, call.observerId = observerId := by
  induction history using List.reverseRecOn with
  | nil => simp [ledgerAfter]
  | append_singleton history call ih =>
      rw [ledgerAfter_append_singleton, get?_recordCall]
      by_cases h : call.observerId = observerId
      · simp [h]
      · simp [h, ih]

section Direction

variable {neutralDefault : ℚ} {history : List ReputationCall} {call : ReputationCall}

theorem le_of_correct (hcorrect : call.correct = true) (hweight : 0 ≤ call.weight) :
    (ledgerAfter neutralDefault history).reputationWeight call.observerId ≤
        (ledgerAfter neutralDefault (history ++ [call])).reputationWeight call.observerId ↔
      (∃ call' ∈ history, call'.observerId = call.observerId) ∨
        neutralDefault ≤ call.weight / 10 := by
  have hgain : call.gain = call.weight := by simp [ReputationCall.gain, hcorrect]
  rw [← scored_iff neutralDefault, ledgerAfter_append_singleton,
    weight_recordCall_self, hgain]
  cases h : (ledgerAfter neutralDefault history).scores.get? call.observerId with
  | none =>
      rw [weight_of_unscored h, neutralDefault_ledgerAfter]
      have htenth : 0 ≤ call.weight / 10 := div_nonneg hweight (by norm_num)
      simp [max_eq_right htenth]
  | some score =>
      rw [weight_of_score h, Option.getD_some]
      have hle : score / 10 ≤ (score + call.weight) / 10 := by
        apply div_le_div_of_nonneg_right _ (by norm_num)
        exact le_add_of_nonneg_right hweight
      simp only [Option.isSome_some, true_or, iff_true]
      exact max_le_max le_rfl hle

theorem le_of_incorrect (hincorrect : call.correct = false) (hweight : 0 ≤ call.weight) :
    (ledgerAfter neutralDefault (history ++ [call])).reputationWeight call.observerId ≤
        (ledgerAfter neutralDefault history).reputationWeight call.observerId ↔
      (∃ call' ∈ history, call'.observerId = call.observerId) ∨ 0 ≤ neutralDefault := by
  have hgain : call.gain ≤ 0 := by
    simp [ReputationCall.gain, hincorrect, hweight]
  rw [← scored_iff neutralDefault, ledgerAfter_append_singleton,
    weight_recordCall_self]
  cases h : (ledgerAfter neutralDefault history).scores.get? call.observerId with
  | none =>
      rw [weight_of_unscored h, neutralDefault_ledgerAfter]
      have htenth : call.gain / 10 ≤ 0 := by
        apply div_nonpos_of_nonpos_of_nonneg hgain
        norm_num
      simp [max_eq_left htenth]
  | some score =>
      rw [weight_of_score h, Option.getD_some]
      have hle : (score + call.gain) / 10 ≤ score / 10 := by
        apply div_le_div_of_nonneg_right _ (by norm_num)
        exact add_le_of_nonpos_right hgain
      simp only [Option.isSome_some, true_or, iff_true]
      exact max_le_max le_rfl hle

end Direction

/-- After every history, an outcome leaves the other observers' weights alone. It never moves the
weight of a scored observer the wrong way. For an observer without outcomes a correct one lowers the
weight exactly if the neutral default is above a tenth of the outcome's weight, and an incorrect one
raises it exactly if the neutral default is negative. -/
theorem reputation_direction (neutralDefault : ℚ) (history : List ReputationCall)
    (call : ReputationCall) (hweight : 0 ≤ call.weight) :
    (∀ other, call.observerId ≠ other →
      (ledgerAfter neutralDefault (history ++ [call])).reputationWeight other =
        (ledgerAfter neutralDefault history).reputationWeight other) ∧
    (call.correct = true →
      ((ledgerAfter neutralDefault history).reputationWeight call.observerId ≤
          (ledgerAfter neutralDefault (history ++ [call])).reputationWeight call.observerId ↔
        (∃ call' ∈ history, call'.observerId = call.observerId) ∨
          neutralDefault ≤ call.weight / 10)) ∧
    (call.correct = false →
      ((ledgerAfter neutralDefault (history ++ [call])).reputationWeight call.observerId ≤
          (ledgerAfter neutralDefault history).reputationWeight call.observerId ↔
        (∃ call' ∈ history, call'.observerId = call.observerId) ∨ 0 ≤ neutralDefault)) := by
  refine ⟨fun other h => ?_, fun h => le_of_correct h hweight, fun h => le_of_incorrect h hweight⟩
  rw [ledgerAfter_append_singleton, weight_recordCall_of_ne h]

/-- An observer that is right twice. -/
theorem reputation_direction_rightTwice :
    (ledgerAfter 1 [.outcome "a" true 1]).reputationWeight "a" ≤
      (ledgerAfter 1 [.outcome "a" true 1, .outcome "a" true 1]).reputationWeight "a" :=
  ((reputation_direction 1 [.outcome "a" true 1] (.outcome "a" true 1) (by decide)).2.1 rfl).mpr
    (Or.inl ⟨_, List.mem_cons_self, rfl⟩)

/-- A first correct outcome lowers the weight from 1 to a tenth. -/
theorem reputation_firstCorrect :
    (ledgerAfter 1 [.outcome "a" true 1]).reputationWeight "a" <
      (ledgerAfter 1 []).reputationWeight "a" := by
  have hbefore : (ledgerAfter 1 []).reputationWeight "a" = 1 := rfl
  have hafter : (ledgerAfter 1 [.outcome "a" true 1]).reputationWeight "a" = 1 / 10 := by
    rw [← List.nil_append [ReputationCall.outcome "a" true 1], ledgerAfter_append_singleton]
    refine (weight_recordCall_self (.outcome "a" true 1)).trans ?_
    norm_num [ledgerAfter, ReputationCall.gain, ReputationCall.correct, ReputationCall.weight]
  rw [hbefore, hafter]
  norm_num

end Perpetua.Transition

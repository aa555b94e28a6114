import Mathlib.Data.Rat.Floor
import Mathlib.Tactic.NormNum
import Perpetua.Lib.HalfEven
import Perpetua.Membership.PeerRecord

/-!
# Theorems about confidence

In exact arithmetic the confidence of an observation, and the display state that it stands for, grow
with its scores and with the agreement of its witnesses, and shrink with their disagreement.
-/

namespace Perpetua.Membership

/-! ## Display states -/

/-- The place of a state in `UNKNOWN < SUSPECT < DEGRADED < HEALTHY`. -/
def PeerDisplayState.rank : PeerDisplayState → ℕ
  | .unknown => 0
  | .suspect => 1
  | .degraded => 2
  | .healthy => 3

theorem hundredths_exact (n : ℤ) : (hundredths n : ℚ) = n / 100 := rfl

theorem computeDisplayState_zero : computeDisplayState (0 : ℚ) = .unknown := by
  decide +kernel

theorem rank_computeDisplayState_mono {x y : ℚ} (hx : 0 ≤ x) (h : x ≤ y) :
    (computeDisplayState x).rank ≤ (computeDisplayState y).rank := by
  have hzero : ((0 : ℤ) : ℚ) = 0 := rfl
  unfold computeDisplayState
  rw [hundredths_exact, hundredths_exact, hzero]
  push_cast
  split_ifs <;> simp only [PeerDisplayState.rank] <;> first | omega | (exfalso; grind)

/-! ## Confidence -/

/-- `compute_confidence` in exact arithmetic. -/
def exactConfidence (o : PeerObservation ℚ) : ℚ := computeConfidence (HalfEven.roundTo 2) o

/-- `compute_display_state_from_peer` in exact arithmetic. -/
def exactDisplayState (o : PeerObservation ℚ) : PeerDisplayState :=
  computeDisplayState (exactConfidence o)

/-- The confidence before it is capped and rounded. -/
def rawConfidence (o : PeerObservation ℚ) : ℚ :=
  o.fields.proofScore * (40 / 100 + 60 / 100 * o.fields.freshnessScore) * witnessMultiplier o

theorem exactConfidence_eq (o : PeerObservation ℚ) :
    exactConfidence o = HalfEven.roundTo 2 (max 0 (min 1 (rawConfidence o))) := by
  have hzero : ((0 : ℤ) : ℚ) = 0 := rfl
  have hone : ((1 : ℤ) : ℚ) = 1 := rfl
  have hcap : (if rawConfidence o < 1 then rawConfidence o else 1) = min 1 (rawConfidence o) := by
    split
    · rename_i hlt
      exact (min_eq_right hlt.le).symm
    · rename_i hge
      exact (min_eq_left (not_lt.mp hge)).symm
  rw [exactConfidence, computeConfidence, PyReal.max_exact, hzero, hone, ← hcap]
  rfl

/-- The second observation is at least as well supported as the first. -/
structure Supports (o o' : PeerObservation ℚ) : Prop where
  proofScore : o.fields.proofScore ≤ o'.fields.proofScore
  freshnessScore : o.fields.freshnessScore ≤ o'.fields.freshnessScore
  agreement : o.fields.witnessAgreement ≤ o'.fields.witnessAgreement
  disagreement : o'.fields.witnessDisagreement ≤ o.fields.witnessDisagreement

theorem witnessMultiplier_exact (o : PeerObservation ℚ) :
    witnessMultiplier o =
      if o.fields.witnessDisagreement > o.fields.witnessAgreement then 50 / 100
      else if o.fields.witnessAgreement = 0 then 85 / 100
      else if o.fields.witnessAgreement = 1 then 95 / 100
      else 1 := rfl

theorem witnessMultiplier_nonneg (o : PeerObservation ℚ) : 0 ≤ witnessMultiplier o := by
  rw [witnessMultiplier_exact]
  split_ifs <;> norm_num

theorem witnessMultiplier_mono {o o' : PeerObservation ℚ} (hcount : 0 ≤ o.fields.witnessAgreement)
    (h : Supports o o') : witnessMultiplier o ≤ witnessMultiplier o' := by
  obtain ⟨-, -, hagree, hdisagree⟩ := h
  rw [witnessMultiplier_exact, witnessMultiplier_exact]
  split_ifs <;> first | omega | norm_num

theorem scores_nonneg (o : PeerObservation ℚ) :
    0 ≤ o.fields.proofScore ∧ 0 ≤ o.fields.freshnessScore := by
  obtain ⟨tree, hvalid⟩ := o
  cases tree with
  | node fields witnessSet => exact ⟨hvalid.1.1.1, hvalid.1.2.1.1⟩

theorem rawConfidence_mono {o o' : PeerObservation ℚ} (hcount : 0 ≤ o.fields.witnessAgreement)
    (h : Supports o o') : rawConfidence o ≤ rawConfidence o' := by
  obtain ⟨hproof, hfresh⟩ := scores_nonneg o
  obtain ⟨hproof', hfresh'⟩ := scores_nonneg o'
  have hfactor : 40 / 100 + 60 / 100 * o.fields.freshnessScore ≤
      40 / 100 + 60 / 100 * o'.fields.freshnessScore := by
    linarith [h.freshnessScore]
  have hfactor_nonneg : 0 ≤ 40 / 100 + 60 / 100 * o.fields.freshnessScore := by linarith
  have hfactor_nonneg' : 0 ≤ 40 / 100 + 60 / 100 * o'.fields.freshnessScore := by linarith
  apply mul_le_mul
  · exact mul_le_mul h.proofScore hfactor hfactor_nonneg hproof'
  · exact witnessMultiplier_mono hcount h
  · exact witnessMultiplier_nonneg o
  · exact mul_nonneg hproof' hfactor_nonneg'

theorem exactConfidence_mono {o o' : PeerObservation ℚ} (hcount : 0 ≤ o.fields.witnessAgreement)
    (h : Supports o o') : exactConfidence o ≤ exactConfidence o' := by
  rw [exactConfidence_eq, exactConfidence_eq]
  apply HalfEven.roundTo_mono
  exact max_le_max le_rfl (min_le_min le_rfl (rawConfidence_mono hcount h))

theorem exactConfidence_bounds (o : PeerObservation ℚ) :
    0 ≤ exactConfidence o ∧ exactConfidence o ≤ 1 := by
  have hzero := HalfEven.roundTo_intCast (α := ℚ) 2 0
  have hone := HalfEven.roundTo_intCast (α := ℚ) 2 1
  push_cast at hzero hone
  rw [exactConfidence_eq]
  constructor
  · have hlow := HalfEven.roundTo_mono 2 (le_max_left 0 (min 1 (rawConfidence o)))
    rwa [hzero] at hlow
  · have hhigh := HalfEven.roundTo_mono 2 (max_le zero_le_one (min_le_left 1 (rawConfidence o)))
    rwa [hone] at hhigh

theorem exactConfidence_unproven {o : PeerObservation ℚ} (h : o.fields.proofScore = 0) :
    exactConfidence o = 0 := by
  have hzero := HalfEven.roundTo_intCast (α := ℚ) 2 0
  push_cast at hzero
  have hraw : rawConfidence o = 0 := by rw [rawConfidence, h, zero_mul, zero_mul]
  rw [exactConfidence_eq, hraw, min_eq_right zero_le_one, max_self, hzero]

/-- The confidence lies between 0 and 1, and is 0 without proof, so that the display state is UNKNOWN.
Confidence and display state grow with the support of an observation. -/
theorem confidence_monotone {o o' : PeerObservation ℚ} (hcount : 0 ≤ o.fields.witnessAgreement)
    (h : Supports o o') :
    (0 ≤ exactConfidence o ∧ exactConfidence o ≤ 1) ∧
      (o.fields.proofScore = 0 → exactConfidence o = 0 ∧ exactDisplayState o = .unknown) ∧
      exactConfidence o ≤ exactConfidence o' ∧
      (exactDisplayState o).rank ≤ (exactDisplayState o').rank := by
  have hbounds := exactConfidence_bounds o
  have hmono := exactConfidence_mono hcount h
  refine ⟨hbounds, fun hproof => ?_, hmono, rank_computeDisplayState_mono hbounds.1 hmono⟩
  have hzero := exactConfidence_unproven hproof
  exact ⟨hzero, by rw [exactDisplayState, hzero, computeDisplayState_zero]⟩

def sampleScored (freshnessScore : ℚ) (h : 0 ≤ freshnessScore ∧ freshnessScore ≤ 1) :
    PeerObservation ℚ where
  tree := .node
    { peerId := "peer", epoch := 1, timestamp := 0, observerId := "observer", proofScore := 1 / 2
      freshnessScore, observationType := .reachable, directStatus := .reachable, endpoint := ""
      endpointEpoch := 1 } []
  valid := by
    refine ⟨⟨⟨?_, ?_⟩, h, by simp [maxChainDepth]⟩, by simp [Tree.depth, Tree.maxDepth, maxWitnessDepth],
      trivial⟩
    · change (0 : ℚ) ≤ 1 / 2
      norm_num
    · change (1 / 2 : ℚ) ≤ 1
      norm_num

theorem confidence_monotone_fresher :
    exactConfidence (sampleScored 0 ⟨le_rfl, zero_le_one⟩) ≤
      exactConfidence (sampleScored 1 ⟨zero_le_one, le_rfl⟩) := by
  have hsupports : Supports (sampleScored 0 ⟨le_rfl, zero_le_one⟩)
      (sampleScored 1 ⟨zero_le_one, le_rfl⟩) := ⟨le_rfl, zero_le_one, le_rfl, le_rfl⟩
  exact (confidence_monotone le_rfl hsupports).2.2.1

end Perpetua.Membership

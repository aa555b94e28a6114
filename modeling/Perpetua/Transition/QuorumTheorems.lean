import Perpetua.Lib.Keyed
import Perpetua.Transition.Manager

/-!
# Theorems about the witness quorum

The counting test finds one independent pair, and the weighted score is a sum over the provenance
buckets of the largest weight in each.
-/

namespace Perpetua.Transition

open Perpetua.Membership KeyedMaxima

variable {φ : Type} [PyReal φ]

/-! ## An independent pair -/

/-- The quorum holds exactly when two witnesses differ in their observer and in their bucket. -/
theorem validateWitnessQuorum_iff (provenanceBucket : String → String) (o : PeerObservation φ) :
    validateWitnessQuorum provenanceBucket o = true ↔
      ∃ v ∈ o.witnessSet, ∃ w ∈ o.witnessSet, v.observerId ≠ w.observerId ∧
        provenanceBucket v.observerProvenance ≠ provenanceBucket w.observerProvenance := by
  have hcount : validateWitnessQuorum provenanceBucket o = true ↔
      2 ≤ o.witnessSet.length ∧ 2 ≤ (o.witnessSet.map (·.observerId)).dedup.length ∧
        2 ≤ (o.witnessSet.map fun w => provenanceBucket w.observerProvenance).dedup.length := by
    unfold validateWitnessQuorum
    grind
  rw [hcount, two_le_length_dedup, two_le_length_dedup]
  simp only [List.mem_map, exists_exists_and_eq_and]
  constructor
  · rintro ⟨-, hobservers, hbuckets⟩
    exact exists_differ_both hobservers hbuckets
  · rintro ⟨v, hv, w, hw, hobserver, hbucket⟩
    refine ⟨?_, ⟨v, hv, w, hw, hobserver⟩, ⟨v, hv, w, hw, hbucket⟩⟩
    have hpair := two_le_length_dedup.mpr
      ⟨_, List.mem_map_of_mem (f := (·.observerId)) hv, _, List.mem_map_of_mem hw, hobserver⟩
    calc
      2 ≤ (o.witnessSet.map (·.observerId)).dedup.length := hpair
      _ ≤ (o.witnessSet.map (·.observerId)).length := (List.dedup_sublist _).length_le
      _ = o.witnessSet.length := List.length_map _

/-! ## The weighted score -/

section Score

variable (cfg : Config ℚ) (reputation : ReputationLedger ℚ)

/-- The bucket and the weight of each witness. -/
def bucketWeights (o : PeerObservation ℚ) : List (String × ℚ) :=
  o.witnessSet.map fun w =>
    (cfg.provenanceBucket w.observerProvenance, reputation.reputationWeight w.observerId)

/-- The `weighted_score` that an observation gets. -/
def weightedScore (o : PeerObservation ℚ) (passes : Bool) : ℚ :=
  (weightVotes cfg reputation o (buildQuorumVote cfg o passes)).weightedScore

/-- The loop of `_weight_votes` keeps the running maxima of the buckets. -/
theorem weightedScore_eq (o : PeerObservation ℚ) (passes : Bool) :
    weightedScore cfg reputation o passes =
      ((runningMaxima 0 (bucketWeights cfg reputation o)).map Prod.snd).sum := by
  have hzip : o.witnessSet.zip (buildQuorumVote cfg o passes).witnessProvenanceBuckets =
      o.witnessSet.map fun w => (w, cfg.provenanceBucket w.observerProvenance) :=
    List.map_prod_left_eq_zip.symm
  simp only [weightedScore, weightVotes, bucketWeights, runningMaxima, PyReal.max_exact, hzip, List.foldl_map]
  rfl

/-- The largest of 0 and the weights of the witnesses in a bucket. -/
def bucketScore (o : PeerObservation ℚ) (bucket : String) : ℚ :=
  ((o.witnessSet.filter fun w => cfg.provenanceBucket w.observerProvenance = bucket).map
    fun w => reputation.reputationWeight w.observerId).foldr max 0

theorem largest_bucketWeights (o : PeerObservation ℚ) (bucket : String) :
    largest 0 (bucketWeights cfg reputation o) bucket = bucketScore cfg reputation o bucket := by
  simp [largest, bucketWeights, bucketScore, List.filter_map, Function.comp_def]

/-- An observation whose witnesses are matched by better ones in the same buckets scores no more. -/
theorem weightedScore_le {o o' : PeerObservation ℚ} (passes passes' : Bool)
    (h : ∀ w ∈ o.witnessSet, ∃ w' ∈ o'.witnessSet,
      cfg.provenanceBucket w'.observerProvenance = cfg.provenanceBucket w.observerProvenance ∧
      reputation.reputationWeight w.observerId ≤ reputation.reputationWeight w'.observerId) :
    weightedScore cfg reputation o passes ≤ weightedScore cfg reputation o' passes' := by
  rw [weightedScore_eq, weightedScore_eq]
  refine sum_runningMaxima_mono le_rfl fun e he => ?_
  obtain ⟨w, hw, rfl⟩ := List.mem_map.mp he
  obtain ⟨w', hw', hbucket, hweight⟩ := h w hw
  exact ⟨_, List.mem_map_of_mem hw', hbucket, hweight⟩

/-- The score is the sum over the buckets of the largest weight in each, which is not below 0. It
depends on the set of witnesses only, it grows with it, and witnesses that are behind a bucket's
best add nothing. -/
theorem weightedScore_spec (o o' : PeerObservation ℚ) (passes passes' : Bool) :
    weightedScore cfg reputation o passes =
        ∑ bucket ∈ (o.witnessSet.map fun w =>
          cfg.provenanceBucket w.observerProvenance).toFinset,
          bucketScore cfg reputation o bucket ∧
      (o.witnessSet ⊆ o'.witnessSet → o'.witnessSet ⊆ o.witnessSet →
        weightedScore cfg reputation o' passes' = weightedScore cfg reputation o passes) ∧
      (o.witnessSet ⊆ o'.witnessSet →
        weightedScore cfg reputation o passes ≤ weightedScore cfg reputation o' passes') ∧
      (o.witnessSet ⊆ o'.witnessSet →
        (∀ w' ∈ o'.witnessSet, w' ∉ o.witnessSet → ∃ w ∈ o.witnessSet,
          cfg.provenanceBucket w.observerProvenance = cfg.provenanceBucket w'.observerProvenance ∧
          reputation.reputationWeight w'.observerId ≤ reputation.reputationWeight w.observerId) →
        weightedScore cfg reputation o' passes' = weightedScore cfg reputation o passes) := by
  have hmono : ∀ {o o' : PeerObservation ℚ} (passes passes' : Bool),
      o.witnessSet ⊆ o'.witnessSet →
        weightedScore cfg reputation o passes ≤ weightedScore cfg reputation o' passes' := by
    intro o o' passes passes' h
    exact weightedScore_le cfg reputation passes passes' fun w hw => ⟨w, h hw, rfl, le_rfl⟩
  refine ⟨?_, fun h h' => le_antisymm (hmono _ _ h') (hmono _ _ h), hmono _ _, fun h hnew => ?_⟩
  · rw [weightedScore_eq, sum_runningMaxima]
    simp only [bucketWeights, List.map_map, Function.comp_def]
    refine Finset.sum_congr rfl fun bucket _ => ?_
    exact largest_bucketWeights cfg reputation o bucket
  · apply le_antisymm
    · refine weightedScore_le cfg reputation _ _ fun w' hw' => ?_
      by_cases hold : w' ∈ o.witnessSet
      · exact ⟨w', hold, rfl, le_rfl⟩
      · exact hnew w' hw' hold
    · exact hmono _ _ h

end Score

/-! ## Sample scores -/

def voterFields (observerId : String) : Fields ℚ :=
  { peerId := "peer", epoch := 1, timestamp := 0, observerId, observationType := .reachable
    directStatus := .reachable, endpoint := "", endpointEpoch := 1, observerProvenance := "a" }

/-- An observation by the observers given, all in one bucket. -/
def voted (observers : List String) : Membership.Tree ℚ :=
  .node (voterFields "observer") (observers.map fun observerId => .node (voterFields observerId) [])

theorem voterFields_valid (observerId : String) : (voterFields observerId).Valid := by
  simp [Fields.Valid, voterFields, maxChainDepth]

/-- One witness. -/
def votedOnce : PeerObservation ℚ where
  tree := voted ["first"]
  valid := ⟨voterFields_valid _, le_rfl, ⟨voterFields_valid _, by decide, trivial⟩, trivial⟩

/-- Two witnesses from one place. -/
def votedTwice : PeerObservation ℚ where
  tree := voted ["first", "second"]
  valid := ⟨voterFields_valid _, le_rfl, ⟨voterFields_valid _, by decide, trivial⟩,
    ⟨voterFields_valid _, by decide, trivial⟩, trivial⟩

def votedConfig : Config ℚ :=
  { localId := "local", weightedQuorumThreshold := 2, provenanceBucket := id }

/-- The second identity adds nothing to the score of the first. -/
theorem weightedScore_votedTwice :
    weightedScore votedConfig { neutralDefault := 1 } votedTwice true =
      weightedScore votedConfig { neutralDefault := 1 } votedOnce true := by
  refine (weightedScore_spec votedConfig { neutralDefault := 1 } votedOnce votedTwice true
    true).2.2.2 (List.cons_subset_cons _ (List.nil_subset _)) ?_
  intro w' hw' _
  refine ⟨voterFields "first", List.mem_cons_self, ?_, le_rfl⟩
  rcases List.mem_cons.mp hw' with rfl | hw'
  · rfl
  · rw [List.mem_singleton.mp hw']
    rfl

/-- The largest weight of a witness in a bucket. -/
def bucketMaximum (cfg : Config ℚ) (reputation : ReputationLedger ℚ) (o : PeerObservation ℚ)
    (bucket : String) : ℚ :=
  (((o.witnessSet.filter fun w => cfg.provenanceBucket w.observerProvenance = bucket).map
    fun w => reputation.reputationWeight w.observerId).max?).getD 0

/-- With a neutral default of -1 the largest weight is -1, and the score is 0. -/
theorem weightedScore_negativeDefault :
    weightedScore votedConfig { neutralDefault := -1 } votedOnce true ≠
      ∑ bucket ∈ (votedOnce.witnessSet.map fun w =>
          votedConfig.provenanceBucket w.observerProvenance).toFinset,
        bucketMaximum votedConfig { neutralDefault := -1 } votedOnce bucket := by
  have hscore : weightedScore votedConfig { neutralDefault := -1 } votedOnce true = 0 := by
    simp [weightedScore_eq, bucketWeights, runningMaxima, votedOnce, voted, voterFields, votedConfig,
      PeerObservation.witnessSet, Tree.witnessSet, Tree.fields, ReputationLedger.reputationWeight,
      Entries.set, Entries.get?]
  have hmaximum : (votedOnce.witnessSet.map fun w =>
      votedConfig.provenanceBucket w.observerProvenance).toFinset = {"a"} := rfl
  rw [hscore, hmaximum, Finset.sum_singleton]
  simp [bucketMaximum, votedOnce, voted, voterFields, votedConfig, PeerObservation.witnessSet,
    Tree.witnessSet, Tree.fields, ReputationLedger.reputationWeight]

end Perpetua.Transition

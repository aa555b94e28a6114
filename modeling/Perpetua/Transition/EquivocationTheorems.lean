import Mathlib.Data.List.DropRight
import Perpetua.Transition.Equivocation

/-!
# Theorems about equivocation

A bucket of the log is the end of the stream of its key, and an observation is compared with the end
of that stream which is one shorter.
-/

namespace Perpetua.Transition

open Perpetua.Membership

/-! ## The end of a list -/

section Rtake

variable {α : Type*}

theorem length_rtake (n : ℕ) (l : List α) : (l.rtake n).length = min n l.length := by
  rw [List.rtake, List.length_drop]
  omega

theorem rtake_append_singleton (n : ℕ) (l : List α) (a : α) :
    (l ++ [a]).rtake (n + 1) = l.rtake n ++ [a] := by
  have hlength : (l ++ [a]).length - (n + 1) = l.length - n := by
    rw [List.length_append, List.length_singleton]
    omega
  rw [List.rtake, hlength, List.drop_append_of_le_length (Nat.sub_le _ _), List.rtake]

/-- The end without its first element, if it is as long as it may be. -/
theorem tail_rtake {n : ℕ} {l : List α} (h : n + 1 ≤ l.length) :
    (l.rtake (n + 1)).tail = l.rtake n := by
  have hdrop : l.length - (n + 1) + 1 = l.length - n := by omega
  rw [List.rtake, List.tail_drop, hdrop, List.rtake]

theorem rtake_of_length_le {n : ℕ} {l : List α} (h : l.length ≤ n) : l.rtake n = l := by
  rw [List.rtake, Nat.sub_eq_zero_of_le h, List.drop_zero]

end Rtake

variable {φ : Type}

theorem trimmed_rtake (l : List (LoggedObservation φ)) :
    trimmed (l.rtake maxObservationsPerKey) = l.rtake (maxObservationsPerKey - 1) := by
  unfold trimmed
  split
  · rename_i h
    rw [ge_iff_le, length_rtake, le_min_iff] at h
    exact tail_rtake h.2
  · rename_i h
    rw [ge_iff_le, length_rtake, le_min_iff, not_and] at h
    have hlength : l.length ≤ maxObservationsPerKey - 1 := Nat.le_sub_one_of_lt (not_le.mp (h le_rfl))
    rw [rtake_of_length_le hlength, rtake_of_length_le (hlength.trans (Nat.sub_le _ _))]

/-! ## Streams -/

variable [PyReal φ]

/-- An observation, with the clock reading of its call. -/
abbrev Recorded (φ : Type) [PyReal φ] := PeerObservation φ × φ

/-- The key that an observation is logged under. -/
def equivocationKey (o : PeerObservation φ) : String × ℤ := (o.peerId, o.epoch)

/-- The log that a stream of calls leaves. -/
def logAfter (stream : List (Recorded φ)) : EquivocationLog φ :=
  stream.foldl (fun log call => (log.recordObservation call.1 call.2).1) {}

/-- The observations of a stream under a key, oldest first. -/
def observationsUnder (stream : List (Recorded φ)) (key : String × ℤ) :
    List (LoggedObservation φ) :=
  (stream.filter fun call => equivocationKey call.1 = key).map fun call => logged call.1

theorem logAfter_append_singleton (stream : List (Recorded φ)) (call : Recorded φ) :
    logAfter (stream ++ [call]) = ((logAfter stream).recordObservation call.1 call.2).1 := by
  simp [logAfter]

theorem bucket_recordObservation (log : EquivocationLog φ) (o : PeerObservation φ) (detectedAt : φ)
    (key : String × ℤ) :
    (log.recordObservation o detectedAt).1.bucket key =
      if equivocationKey o = key then trimmed (log.bucket key) ++ [logged o]
      else log.bucket key := by
  have hget : (log.recordObservation o detectedAt).1.observations.get? key =
      if equivocationKey o = key then
        some (trimmed (log.bucket (equivocationKey o)) ++ [logged o])
      else log.observations.get? key :=
    OrderedDict.get?_set ..
  rw [EquivocationLog.bucket, hget]
  split
  · rename_i hkey
    rw [← hkey]
    rfl
  · rfl

/-- A bucket holds the last observations under its key, in the order in which they arrived. -/
theorem bucket_logAfter (stream : List (Recorded φ)) (key : String × ℤ) :
    (logAfter stream).bucket key = (observationsUnder stream key).rtake maxObservationsPerKey := by
  induction stream using List.reverseRecOn with
  | nil => rfl
  | append_singleton stream call ih =>
      rw [logAfter_append_singleton, bucket_recordObservation, ih, observationsUnder,
        observationsUnder, List.filter_append, List.map_append]
      by_cases hkey : equivocationKey call.1 = key
      · rw [if_pos hkey, trimmed_rtake, List.filter_cons_of_pos (by simpa using hkey),
          List.filter_nil, List.map_singleton, maxObservationsPerKey, rtake_append_singleton]
      · rw [if_neg hkey, List.filter_cons_of_neg (by simpa using hkey), List.filter_nil,
          List.map_nil, List.append_nil]

theorem evidence_recordObservation (stream : List (Recorded φ)) (o : PeerObservation φ)
    (detectedAt : φ) :
    ((logAfter stream).recordObservation o detectedAt).2 =
      (((observationsUnder stream (equivocationKey o)).rtake (maxObservationsPerKey - 1)).filter
        (contradicts o)).map (evidence o detectedAt) := by
  have htrimmed : trimmed ((logAfter stream).bucket (equivocationKey o)) =
      (observationsUnder stream (equivocationKey o)).rtake (maxObservationsPerKey - 1) := by
    rw [bucket_logAfter, trimmed_rtake]
  rw [← htrimmed]
  rfl

/-- For every stream: a bucket has at most `MAX_OBSERVATIONS_PER_KEY` entries, the last ones under
its key; an observation gets one piece of evidence for each contradicting one among the
`MAX_OBSERVATIONS_PER_KEY - 1` before it, all by its own observer; and it leaves every other key's
bucket and evidence as they are. -/
theorem equivocation_window (stream : List (Recorded φ)) (o : PeerObservation φ) (detectedAt : φ) :
    (∀ key, ((logAfter stream).bucket key).length ≤ maxObservationsPerKey ∧
      (logAfter stream).bucket key =
        (observationsUnder stream key).rtake maxObservationsPerKey) ∧
    ((logAfter stream).recordObservation o detectedAt).2 =
      (((observationsUnder stream (equivocationKey o)).rtake (maxObservationsPerKey - 1)).filter
        fun prior => prior.observerId = o.observerId ∧ prior.provenance = o.observerProvenance ∧
          prior.observationType ≠ o.observationType).map (evidence o detectedAt) ∧
    (∀ e ∈ ((logAfter stream).recordObservation o detectedAt).2,
      e.observerId = o.observerId ∧ e.priorObserverId = o.observerId) ∧
    (∀ key, equivocationKey o ≠ key →
      (logAfter (stream ++ [(o, detectedAt)])).bucket key = (logAfter stream).bucket key) ∧
    (∀ o' detectedAt', equivocationKey o ≠ equivocationKey o' →
      ((logAfter (stream ++ [(o, detectedAt)])).recordObservation o' detectedAt').2 =
        ((logAfter stream).recordObservation o' detectedAt').2) := by
  have hother : ∀ key, equivocationKey o ≠ key →
      observationsUnder (stream ++ [(o, detectedAt)]) key = observationsUnder stream key := by
    intro key hkey
    simp [observationsUnder, hkey]
  refine ⟨fun key => ⟨?_, bucket_logAfter stream key⟩, ?_, ?_, ?_, ?_⟩
  · rw [bucket_logAfter, length_rtake]
    exact min_le_left _ _
  · rw [evidence_recordObservation]
    congr 1
    refine List.filter_congr fun prior _ => ?_
    simp [contradicts, Bool.and_assoc]
  · intro e he
    rw [evidence_recordObservation] at he
    obtain ⟨prior, hprior, rfl⟩ := List.mem_map.mp he
    have hcontradicts := (List.mem_filter.mp hprior).2
    simp only [contradicts, Bool.and_eq_true, decide_eq_true_eq] at hcontradicts
    exact ⟨rfl, hcontradicts.1.1⟩
  · intro key hkey
    rw [bucket_logAfter, hother key hkey, bucket_logAfter]
  · intro o' detectedAt' hkey
    rw [evidence_recordObservation, hother _ hkey, evidence_recordObservation]

end Perpetua.Transition

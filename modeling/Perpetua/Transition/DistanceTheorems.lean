import Mathlib.Algebra.BigOperators.Group.Finset.Basic
import Mathlib.Data.List.Induction
import Mathlib.Data.Nat.Bitwise
import Perpetua.Lib.Recency
import Perpetua.Transition.Manager

/-!
# Theorems about distances and buckets
-/

namespace Perpetua.Transition

open Perpetua.Membership

/-! ## Distances -/

section Distance

theorem size_xor_le (x y : ℕ) : (x ^^^ y).size ≤ max x.size y.size := by
  rw [Nat.size_le]
  apply Nat.xor_lt_two_pow
  · exact Nat.size_le.mp (le_max_left _ _)
  · exact Nat.size_le.mp (le_max_right _ _)

theorem testBit_of_size_le {x i : ℕ} (h : x.size ≤ i) : x.testBit i = false :=
  Nat.testBit_lt_two_pow (Nat.size_le.mp h)

theorem size_le_iff {x p : ℕ} : x.size ≤ p ↔ ∀ i, p ≤ i → x.testBit i = false := by
  constructor
  · intro h i hi
    exact testBit_of_size_le (h.trans hi)
  · intro h
    exact Nat.size_le.mpr (Nat.lt_pow_two_of_testBit x h)

theorem testBit_leading {x : ℕ} (h : x ≠ 0) : x.testBit (x.size - 1) = true := by
  have hpos : 0 < x.size := Nat.size_pos.mpr (Nat.pos_of_ne_zero h)
  by_contra hbit
  have hsize : x.size ≤ x.size - 1 := by
    rw [size_le_iff]
    intro i hi
    obtain rfl | hlt := Nat.eq_or_lt_of_le hi
    · exact Bool.eq_false_iff.mpr hbit
    · exact testBit_of_size_le (by omega)
  omega

/-- Combining with `y` lowers `x` if and only if it clears the bit that leads `y`. -/
theorem xor_lt_iff {x y : ℕ} (h : y ≠ 0) : x ^^^ y < x ↔ x.testBit (y.size - 1) := by
  have hlead := testBit_leading h
  have habove : ∀ j, y.size - 1 < j → (x ^^^ y).testBit j = x.testBit j := by
    intro j hj
    have hle : y.size ≤ j := by omega
    rw [Nat.testBit_xor, testBit_of_size_le hle, Bool.xor_false]
  constructor
  · intro hlt
    by_contra hbit
    have hx : x.testBit (y.size - 1) = false := Bool.eq_false_iff.mpr hbit
    have hxor : (x ^^^ y).testBit (y.size - 1) = true := by
      rw [Nat.testBit_xor, hx, hlead]
      rfl
    have hgt := Nat.lt_of_testBit _ hx hxor fun j hj => (habove j hj).symm
    omega
  · intro hbit
    apply Nat.lt_of_testBit (y.size - 1) _ hbit habove
    rw [Nat.testBit_xor, hbit, hlead]
    rfl

theorem xor_le_left_iff (x y : ℕ) : x ^^^ y ≤ x ↔ y = 0 ∨ x.testBit (y.size - 1) := by
  by_cases hy : y = 0
  · simp [hy]
  · have hne : x ^^^ y ≠ x := by
      intro h
      have hself : x ^^^ (x ^^^ y) = x ^^^ x := congrArg (x ^^^ ·) h
      rw [← Nat.xor_assoc, Nat.xor_self, Nat.zero_xor] at hself
      exact hy hself
    rw [Nat.le_iff_lt_or_eq, xor_lt_iff hy]
    simp [hne, hy]

variable (keyOf : String → ℕ)

/-- Two hops combine to the direct distance. -/
theorem xorDistance_hop (a b c : String) :
    xorDistance keyOf a b ^^^ xorDistance keyOf b c = xorDistance keyOf a c := by
  rw [xorDistance, xorDistance, xorDistance, Nat.xor_assoc, ← Nat.xor_assoc (keyOf b), Nat.xor_self,
    Nat.zero_xor]

/-- The bit length of the distance is an ultrametric. The distance itself is at most the larger one
of two hops if and only if the smaller one is zero, or the larger one has its leading bit. -/
theorem xorDistance_ultrametric (a b c : String) :
    (xorDistance keyOf a c).size ≤
        max (xorDistance keyOf a b).size (xorDistance keyOf b c).size ∧
      (xorDistance keyOf a c ≤ max (xorDistance keyOf a b) (xorDistance keyOf b c) ↔
        min (xorDistance keyOf a b) (xorDistance keyOf b c) = 0 ∨
          (max (xorDistance keyOf a b) (xorDistance keyOf b c)).testBit
            ((min (xorDistance keyOf a b) (xorDistance keyOf b c)).size - 1)) := by
  rw [← xorDistance_hop keyOf a b c]
  generalize xorDistance keyOf a b = x
  generalize xorDistance keyOf b c = y
  refine ⟨size_xor_le x y, ?_⟩
  rcases Nat.le_total x y with h | h
  · rw [max_eq_right h, min_eq_left h, Nat.xor_comm]
    exact xor_le_left_iff y x
  · rw [max_eq_left h, min_eq_right h]
    exact xor_le_left_iff x y

/-- Keys `1`, `0` and `2`. -/
theorem not_xorDistance_ultrametric :
    ¬ ∀ keyOf : String → ℕ, (∀ id, keyOf id < 2 ^ 256) → ∀ a b c,
      xorDistance keyOf a c ≤ max (xorDistance keyOf a b) (xorDistance keyOf b c) := by
  intro h
  have hkeys : ∀ id : String, (if id = "a" then 1 else if id = "b" then 0 else 2) < 2 ^ 256 := by
    intro id
    split
    · decide
    · split <;> decide
  exact absurd (h _ hkeys "a" "b" "c") (by decide)

end Distance

/-! ## Correlation -/

section Correlation

variable (keyOf : String → ℕ)

theorem isCorrelated_iff_testBit (a b : String) (p : ℕ) :
    isCorrelated keyOf a b p ↔ ∀ i, p ≤ i → (keyOf a).testBit i = (keyOf b).testBit i := by
  rw [isCorrelated, decide_eq_true_iff, Nat.cast_le, size_le_iff, xorDistance]
  refine forall₂_congr fun i _ => ?_
  rw [Nat.testBit_xor]
  cases (keyOf a).testBit i <;> cases (keyOf b).testBit i <;> simp

/-- The key without its lowest bits. -/
theorem isCorrelated_iff (a b : String) (p : ℕ) :
    isCorrelated keyOf a b p ↔ keyOf a >>> p = keyOf b >>> p := by
  rw [isCorrelated_iff_testBit]
  constructor
  · intro h
    apply Nat.eq_of_testBit_eq
    intro i
    rw [Nat.testBit_shiftRight, Nat.testBit_shiftRight]
    exact h (p + i) (Nat.le_add_right p i)
  · intro h i hi
    obtain ⟨j, rfl⟩ := Nat.exists_eq_add_of_le hi
    rw [← Nat.testBit_shiftRight, ← Nat.testBit_shiftRight, h]

/-- The pairs that a Sybil check compares. -/
def comparedPairs {φ : Type} [PyReal φ] (o : PeerObservation φ) : List (String × String) :=
  let witnessIds := o.witnessSet.map (·.peerId)
  witnessIds.map (o.peerId, ·) ++ pairs witnessIds

/-- Correlation is an equivalence, coarser for more bits: its classes are the keys without their
lowest bits. A Sybil check reports the compared pairs that lie in one class. -/
theorem isCorrelated_equivalence (p : ℕ) :
    Equivalence (fun a b => isCorrelated keyOf a b p = true) ∧
      (∀ a b, isCorrelated keyOf a b p ↔
        ∀ i, p ≤ i → (keyOf a).testBit i = (keyOf b).testBit i) ∧
      (∀ a b j, isCorrelated keyOf a b p → isCorrelated keyOf a b (p + j : ℕ)) ∧
      ∀ (φ : Type) [PyReal φ] (cfg : Config φ) (kBucket : KBucketTable φ) (o : PeerObservation φ),
        (checkSybilCorrelation { cfg with keyOf, sybilProximityBits := p } kBucket o).correlatedPairs =
          (comparedPairs o).filter fun ab => keyOf ab.1 >>> p = keyOf ab.2 >>> p := by
  refine ⟨⟨fun a => ?_, fun {a b} hab => ?_, fun {a b c} hab hbc => ?_⟩,
    fun a b => isCorrelated_iff_testBit keyOf a b p, fun a b j hab => ?_, fun φ _ cfg kBucket o => ?_⟩
  · exact (isCorrelated_iff keyOf a a p).mpr rfl
  · rw [isCorrelated_iff] at hab ⊢
    exact hab.symm
  · rw [isCorrelated_iff] at hab hbc ⊢
    exact hab.trans hbc
  · rw [isCorrelated_iff_testBit] at hab ⊢
    exact fun i hi => hab i (by omega)
  · have hclass : ∀ ab : String × String, isCorrelated keyOf ab.1 ab.2 p =
        decide (keyOf ab.1 >>> p = keyOf ab.2 >>> p) := by
      intro ab
      rw [Bool.eq_iff_iff, decide_eq_true_iff, isCorrelated_iff]
    simp only [checkSybilCorrelation, comparedPairs, List.filter_append, hclass]

end Correlation

/-! ## Buckets -/

namespace KBucketTable

variable {φ : Type} (keyOf : String → ℕ)

/-- The table after the updates. -/
def after (localId : String) (k : ℕ) (updates : List (String × φ)) : KBucketTable φ :=
  updates.foldl (fun table u => table.update keyOf u.1 u.2) { localId, k }

/-- The updates of the peers of a bucket. -/
def updatesOf (localId : String) (bucketIndex : ℕ) (updates : List (String × φ)) :
    List (String × φ) :=
  updates.filter fun u => (xorDistance keyOf u.1 localId).size = bucketIndex

/-- `__len__`. -/
def len (table : KBucketTable φ) : ℕ := (table.buckets.entries.map (·.2.length)).sum

theorem after_append_singleton (localId : String) (k : ℕ) (updates : List (String × φ))
    (u : String × φ) :
    after keyOf localId k (updates ++ [u]) = (after keyOf localId k updates).update keyOf u.1 u.2 :=
  List.foldl_concat _ _ _ _

@[simp] theorem localId_update (table : KBucketTable φ) (peerId : String) (lastSeen : φ) :
    (table.update keyOf peerId lastSeen).localId = table.localId := rfl

@[simp] theorem k_update (table : KBucketTable φ) (peerId : String) (lastSeen : φ) :
    (table.update keyOf peerId lastSeen).k = table.k := rfl

theorem constants_after (localId : String) (k : ℕ) (updates : List (String × φ)) :
    (after keyOf localId k updates).localId = localId ∧ (after keyOf localId k updates).k = k := by
  induction updates using List.reverseRecOn with
  | nil => exact ⟨rfl, rfl⟩
  | append_singleton updates u ih => rwa [after_append_singleton, localId_update, k_update]

theorem bucket_update (table : KBucketTable φ) (u : String × φ) (i : ℕ) :
    (table.update keyOf u.1 u.2).bucket i =
      if table.bucketFor keyOf u.1 = i then (Recency.refresh (table.bucket i) u).rtake table.k
      else table.bucket i := by
  rw [bucket, update]
  dsimp only
  rw [OrderedDict.get?_set]
  split
  · rename_i h
    rw [h]
    rfl
  · rfl

theorem bucket_after (localId : String) (k : ℕ) (updates : List (String × φ)) (i : ℕ) :
    (after keyOf localId k updates).bucket i =
      (Recency.lastUses (updatesOf keyOf localId i updates)).rtake k := by
  induction updates using List.reverseRecOn with
  | nil => exact (List.rtake_nil _).symm
  | append_singleton updates u ih =>
      obtain ⟨hlocal, hk⟩ := constants_after keyOf localId k updates
      have hsplit : updatesOf keyOf localId i (updates ++ [u]) =
          updatesOf keyOf localId i updates ++ updatesOf keyOf localId i [u] := List.filter_append ..
      rw [after_append_singleton, bucket_update, ih, hk, bucketFor, hlocal, hsplit]
      by_cases hi : (xorDistance keyOf u.1 localId).size = i
      · have hone : updatesOf keyOf localId i [u] = [u] := by simp [updatesOf, hi]
        rw [if_pos hi, hone, Recency.lastUses_append_singleton]
        exact Recency.rtake_refresh_rtake (Recency.nodup_lastUses _) k u
      · have hnone : updatesOf keyOf localId i [u] = [] := by simp [updatesOf, hi]
        rw [if_neg hi, hnone, List.append_nil]

theorem mem_keys_after (localId : String) (k : ℕ) (updates : List (String × φ)) (i : ℕ) :
    i ∈ (after keyOf localId k updates).buckets.keys ↔
      i ∈ updates.map fun u => (xorDistance keyOf u.1 localId).size := by
  induction updates using List.reverseRecOn with
  | nil => simp [after, OrderedDict.keys, OrderedDict.empty]
  | append_singleton updates u ih =>
      obtain ⟨hlocal, -⟩ := constants_after keyOf localId k updates
      rw [after_append_singleton, update, OrderedDict.keys_set, bucketFor, hlocal, List.map_append,
        List.map_singleton, List.mem_append, List.mem_singleton, ← ih]
      split
      · rename_i hmem
        constructor
        · exact Or.inl
        · rintro (h | rfl)
          · exact h
          · exact hmem
      · rw [List.mem_append, List.mem_singleton]

/-- The peers of a bucket among the updates. -/
def distinctPeers (localId : String) (bucketIndex : ℕ) (updates : List (String × φ)) :
    Finset String :=
  ((updatesOf keyOf localId bucketIndex updates).map Prod.fst).toFinset

theorem length_bucket_after (localId : String) (k : ℕ) (updates : List (String × φ)) (i : ℕ) :
    ((after keyOf localId k updates).bucket i).length =
      min k (distinctPeers keyOf localId i updates).card := by
  have hlen := congrArg List.length (Recency.map_fst_lastUses (updatesOf keyOf localId i updates))
  rw [List.length_map] at hlen
  rw [bucket_after, List.rtake, List.length_drop, hlen, distinctPeers, List.card_toFinset]
  omega

theorem len_eq (table : KBucketTable φ) :
    table.len = ∑ i ∈ table.buckets.keys.toFinset, (table.bucket i).length := by
  rw [OrderedDict.keys, List.sum_toFinset _ table.buckets.nodup, len, List.map_map]
  refine congrArg List.sum (List.map_congr_left fun e he => ?_)
  rw [Function.comp_apply, bucket, OrderedDict.get?, Entries.get?_of_mem table.buckets.nodup he]
  rfl

/-- After any updates a bucket holds the last `k` of its peers in the order of their last updates,
with the times of these. Every peer is in its own bucket, at most once, and an update changes no
other bucket. -/
theorem kBucketTable_lru (localId : String) (k : ℕ) (updates : List (String × φ)) :
    (∀ i, (after keyOf localId k updates).bucket i =
        (Recency.lastUses (updatesOf keyOf localId i updates)).rtake k ∧
      (after keyOf localId k updates).peersInBucket i =
        ((updatesOf keyOf localId i updates).map Prod.fst).dedup.rtake k) ∧
    (∀ i, ((after keyOf localId k updates).peersInBucket i).Nodup ∧
      ∀ peerId ∈ (after keyOf localId k updates).peersInBucket i,
        (after keyOf localId k updates).bucketFor keyOf peerId = i) ∧
    (∀ (table : KBucketTable φ) (u : String × φ) (i : ℕ), table.bucketFor keyOf u.1 ≠ i →
      (table.update keyOf u.1 u.2).bucket i = table.bucket i) ∧
    (after keyOf localId k updates).len =
      ∑ i ∈ (updates.map fun u => (xorDistance keyOf u.1 localId).size).toFinset,
        min k (distinctPeers keyOf localId i updates).card := by
  have hpeers : ∀ i, (after keyOf localId k updates).peersInBucket i =
      ((updatesOf keyOf localId i updates).map Prod.fst).dedup.rtake k := by
    intro i
    rw [peersInBucket, bucket_after, ← Recency.map_fst_lastUses, List.rtake, List.rtake, List.map_drop,
      List.length_map]
  refine ⟨fun i => ⟨bucket_after keyOf localId k updates i, hpeers i⟩, fun i => ?_,
    fun table u i hi => ?_, ?_⟩
  · rw [hpeers]
    refine ⟨(List.nodup_dedup _).sublist (List.drop_sublist _ _), fun peerId hmem => ?_⟩
    have hused := List.mem_dedup.mp ((List.drop_sublist _ _).subset hmem)
    obtain ⟨u, hu, rfl⟩ := List.mem_map.mp hused
    obtain ⟨hlocal, -⟩ := constants_after keyOf localId k updates
    rw [bucketFor, hlocal]
    simpa using (List.mem_filter.mp hu).2
  · rw [bucket_update, if_neg hi]
  · have hkeys : (after keyOf localId k updates).buckets.keys.toFinset =
        (updates.map fun u => (xorDistance keyOf u.1 localId).size).toFinset := by
      ext i
      rw [List.mem_toFinset, List.mem_toFinset, mem_keys_after]
    rw [len_eq, hkeys]
    exact Finset.sum_congr rfl fun i _ => length_bucket_after keyOf localId k updates i

end KBucketTable

end Perpetua.Transition

import Mathlib.Algebra.Group.Nat.Defs
import Mathlib.Data.Int.Notation
import Mathlib.Data.Nat.Size
import Perpetua.Lib.OrderedDict
import Perpetua.Lib.Sha256

/-!
# Distance buckets

The model of `orchestrator/distance_bucket.py`. The key of a peer id is a parameter of everything
but `peerIdToInt`, which is the one in use.
-/

namespace Perpetua.Transition

/-- `peer_id_to_int`. -/
def peerIdToInt (peerId : String) : ℕ :=
  (Sha256.digest (Sha256.utf8 peerId)).foldl (fun n w => n * 2 ^ 32 + w.toNat) 0

section Distance

variable (keyOf : String → ℕ)

/-- `xor_distance`. -/
def xorDistance (idA idB : String) : ℕ := keyOf idA ^^^ keyOf idB

/-- `is_correlated`; the bit length of a number is its `Nat.size`. -/
def isCorrelated (peerIdA peerIdB : String) (proximityBits : ℤ) : Bool :=
  ((xorDistance keyOf peerIdA peerIdB).size : ℤ) ≤ proximityBits

end Distance

/-- `KBucketTable`: the peers of each bucket and when they were last seen, oldest first. -/
structure KBucketTable (φ : Type) where
  localId : String
  k : ℕ := 20
  buckets : OrderedDict ℕ (List (String × φ)) := .empty

namespace KBucketTable

variable {φ : Type} (keyOf : String → ℕ)

/-- `bucket_for`. -/
def bucketFor (table : KBucketTable φ) (peerId : String) : ℕ :=
  (xorDistance keyOf peerId table.localId).size

def bucket (table : KBucketTable φ) (bucketIndex : ℕ) : List (String × φ) :=
  (table.buckets.get? bucketIndex).getD []

/-- `update`. -/
def update (table : KBucketTable φ) (peerId : String) (lastSeen : φ) : KBucketTable φ :=
  let bucketIndex := table.bucketFor keyOf peerId
  let bucket := (table.bucket bucketIndex).filter (·.1 ≠ peerId) ++ [(peerId, lastSeen)]
  { table with buckets := table.buckets.set bucketIndex (bucket.drop (bucket.length - table.k)) }

/-- `peers_in_bucket`. -/
def peersInBucket (table : KBucketTable φ) (bucketIndex : ℕ) : List String :=
  (table.bucket bucketIndex).map (·.1)

end KBucketTable

end Perpetua.Transition

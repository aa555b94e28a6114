import Perpetua.Membership.Printed
import Perpetua.Transition.Theorems

/-!
# Retries of a waiting observation

An observation that is submitted again while it waits is compared with the waiting one by its text.
-/

namespace Perpetua.Transition

open Json (Value Number)
open Perpetua.Membership

section

variable {φ : Type} [PyReal φ] [PyReal.Text φ] {cfg : Config φ} {m : Manager φ} {c : Call φ}
  {existing : Waiting φ}

/-- The call submits an observation that is still ahead, and its place in the buffer is taken. -/
structure Resubmits (m : Manager φ) (c : Call φ) (existing : Waiting φ) : Prop where
  unseen : dedupKey c.obs ∉ m.seenObservations.keys
  ahead : place (m.lastAppliedKey.get? c.obs.peerId) (orderKey c.obs) = .ahead
  fresh : ¬ c.obs.isStale c.env.now
  waiting : (m.buffer c.obs.peerId).get? (orderKey c.obs) = some existing

theorem Resubmits.evaluate (h : Resubmits m c existing) :
    evaluate cfg m c = alone (bufferObservation cfg m c.obs c.oldStatus c.env) := by
  unfold Transition.evaluate
  dsimp only
  rw [if_neg h.unseen, h.ahead]

end

/-! ## Samples -/

attribute [local instance] wholeText

/-- A sample observation with a probe result. -/
def probed (probeResult : List (String × Value)) : PeerObservation ℚ where
  tree := .node { (sampleObservation 1 3).fields with probeResult := some probeResult }
    (sampleObservation 1 3).tree.witnessSet
  valid := (sampleObservation 1 3).valid

end Perpetua.Transition

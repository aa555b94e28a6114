import Mathlib.Data.List.Dedup
import Perpetua.Membership

/-!
# Witness quorum

The model of `orchestrator/witness_quorum.py`. The bucket of a provenance is a parameter.
-/

namespace Perpetua.Transition

open Perpetua.Membership

variable {φ : Type} [PyReal φ]

/-- `validate_witness_quorum`. -/
def validateWitnessQuorum (provenanceBucket : String → String) (o : PeerObservation φ) : Bool :=
  if o.witnessSet.length < 2 then false
  else if (o.witnessSet.map (·.observerId)).dedup.length < 2 then false
  else if (o.witnessSet.map fun w => provenanceBucket w.observerProvenance).dedup.length < 2 then
    false
  else true

end Perpetua.Transition

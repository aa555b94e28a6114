import Perpetua.Membership

/-!
# Equivocation

The model of `orchestrator/equivocation.py`: a bounded log of observations for each peer and epoch,
and the contradictions of one observer that it shows.
-/

namespace Perpetua.Transition

open Perpetua.Membership

/-- `MAX_OBSERVATIONS_PER_KEY`. -/
def maxObservationsPerKey : ℕ := 50

/-- `EquivocationEvidence`. -/
structure EquivocationEvidence (φ : Type) where
  peerId : String
  epoch : ℤ
  observerId : String
  priorObserverId : String
  observerProvenance : String
  contradictingPair : ObservationType × ObservationType
  timestamps : φ × φ
  detectedAt : φ

/-- What the log keeps of an observation. -/
structure LoggedObservation (φ : Type) where
  observerId : String
  observationType : ObservationType
  timestamp : φ
  provenance : String

/-- `EquivocationLog`: the observations of each peer and epoch, oldest first. -/
structure EquivocationLog (φ : Type) where
  observations : OrderedDict (String × ℤ) (List (LoggedObservation φ)) := .empty

section

variable {φ : Type}

/-- The observations under a key; none when the key is absent. -/
def EquivocationLog.bucket (log : EquivocationLog φ) (key : String × ℤ) :
    List (LoggedObservation φ) :=
  (log.observations.get? key).getD []

/-- The bucket that a new observation is compared with: the oldest one has left a full bucket. -/
def trimmed (bucket : List (LoggedObservation φ)) : List (LoggedObservation φ) :=
  if bucket.length ≥ maxObservationsPerKey then bucket.tail else bucket

end

variable {φ : Type} [PyReal φ]

/-- What the log keeps of an observation. -/
def logged (o : PeerObservation φ) : LoggedObservation φ :=
  ⟨o.observerId, o.observationType, o.timestamp, o.observerProvenance⟩

/-- The prior observation is the same observer's, from the same place, and says otherwise. -/
def contradicts (o : PeerObservation φ) (prior : LoggedObservation φ) : Bool :=
  prior.observerId = o.observerId && prior.provenance = o.observerProvenance &&
    prior.observationType ≠ o.observationType

def evidence (o : PeerObservation φ) (detectedAt : φ) (prior : LoggedObservation φ) :
    EquivocationEvidence φ where
  peerId := o.peerId
  epoch := o.epoch
  observerId := o.observerId
  priorObserverId := prior.observerId
  observerProvenance := o.observerProvenance
  contradictingPair := (o.observationType, prior.observationType)
  timestamps := (o.timestamp, prior.timestamp)
  detectedAt := detectedAt

/-- `record_observation`, with the time at which it runs. -/
def EquivocationLog.recordObservation (log : EquivocationLog φ) (o : PeerObservation φ)
    (detectedAt : φ) : EquivocationLog φ × List (EquivocationEvidence φ) :=
  let key := (o.peerId, o.epoch)
  let bucket := trimmed (log.bucket key)
  ({ observations := log.observations.set key (bucket ++ [logged o]) },
    (bucket.filter (contradicts o)).map (evidence o detectedAt))

end Perpetua.Transition

import Perpetua.Lib.Machine
import Perpetua.Membership

/-!
# Peer records

The model of `orchestrator/peer_record.py`, of `orchestrator/display_state.py` and of
`compute_confidence` in `orchestrator/membership.py`. The rounding to two decimals is a parameter.
The listeners are a set that Python iterates over while they change it.
-/

namespace Perpetua.Membership

/-! ## Confidence -/

/-- `PeerDisplayState`. -/
inductive PeerDisplayState
  | unknown | suspect | degraded | healthy
  deriving DecidableEq

def PeerDisplayState.value : PeerDisplayState → String
  | .unknown => "UNKNOWN"
  | .suspect => "SUSPECT"
  | .degraded => "DEGRADED"
  | .healthy => "HEALTHY"

section Confidence

variable {φ : Type} [PyReal φ]

/-- A decimal literal with two digits. -/
def hundredths (n : ℤ) : φ := (n : φ) / ((100 : ℤ) : φ)

/-- `_compute_witness_multiplier`. -/
def witnessMultiplier (o : PeerObservation φ) : φ :=
  if o.fields.witnessDisagreement > o.fields.witnessAgreement then hundredths 50
  else if o.fields.witnessAgreement = 0 then hundredths 85
  else if o.fields.witnessAgreement = 1 then hundredths 95
  else ((1 : ℤ) : φ)

/-- `compute_confidence`. -/
def computeConfidence (round2 : φ → φ) (o : PeerObservation φ) : φ :=
  let freshnessFactor := hundredths 40 + hundredths 60 * o.fields.freshnessScore
  let confidence := o.fields.proofScore * freshnessFactor * witnessMultiplier o
  let capped := if confidence < ((1 : ℤ) : φ) then confidence else ((1 : ℤ) : φ)
  round2 (PyReal.max ((0 : ℤ) : φ) capped)

/-- `compute_display_state`; two floats are equal if each is at most the other. -/
def computeDisplayState (confidence : φ) : PeerDisplayState :=
  if confidence ≤ ((0 : ℤ) : φ) ∧ ((0 : ℤ) : φ) ≤ confidence then .unknown
  else if confidence < hundredths 30 then .suspect
  else if confidence < hundredths 70 then .degraded
  else .healthy

end Confidence

/-! ## Listeners -/

inductive ListenerChange (ι : Type)
  | subscribe (listener : ι)
  | unsubscribe (listener : ι)

/-- How a call of a listener ends. -/
inductive Ending
  | returned
  /-- With an `Exception`, which is caught and printed. -/
  | raised
  /-- With an exception that is not caught, or that cannot be printed. -/
  | uncaught
  deriving DecidableEq

/-- A slot of the set's table: the listener in it, and what it does if it is called. -/
structure Slot (ι : Type) where
  listener : ι
  changes : List (ListenerChange ι) := []
  ending : Ending := .returned

inductive UpdateError
  /-- An observation of another peer. -/
  | valueError
  /-- Set changed size during iteration. -/
  | runtimeError
  | listenerError
  deriving DecidableEq

section Listeners

variable {ι : Type} [DecidableEq ι]

/-- `subscribe_to_state_changes` and `unsubscribe_from_state_changes`. -/
def ListenerChange.apply (listeners : Finset ι) : ListenerChange ι → Finset ι
  | subscribe listener => insert listener listeners
  | unsubscribe listener => listeners.erase listener

/-- The set after the iteration has passed a slot. A listener that has left the set is passed over. -/
def Slot.pass (listeners : Finset ι) (slot : Slot ι) : Finset ι :=
  if slot.listener ∈ listeners then slot.changes.foldl ListenerChange.apply listeners else listeners

/-- The loop of `_emit_state_transition` over a set that had `size` elements at its start. -/
def emitStateTransition (size : ℕ) : List (Slot ι) → Finset ι → Finset ι × Except UpdateError Unit
  | [], listeners =>
      if listeners.card = size then (listeners, .ok ()) else (listeners, .error .runtimeError)
  | slot :: slots, listeners =>
      if listeners.card = size then
        if slot.listener ∈ listeners ∧ slot.ending = .uncaught then
          (slot.pass listeners, .error .listenerError)
        else emitStateTransition size slots (slot.pass listeners)
      else (listeners, .error .runtimeError)

end Listeners

/-! ## The record -/

/-- `StateTransitionEvent`. -/
structure StateTransitionEvent (φ : Type) [PyReal φ] where
  peerId : String
  oldState : Option String
  newState : String
  confidence : φ
  timestamp : φ
  observation : PeerObservation φ

/-- `PeerRecord`. -/
structure PeerRecord (φ ι : Type) [PyReal φ] where
  peerId : String
  latestObservation : Option (PeerObservation φ) := none
  lastConfidence : φ := ((0 : ℤ) : φ)
  lastConfidenceTimestamp : Option φ := none
  displayState : Option String := none
  witnessAgreementCount : ℤ := 0
  witnessDisagreementCount : ℤ := 0
  observationCount : ℤ := 0
  stateChangeListeners : Finset ι := ∅

/-- A call of `update_from_observation`, with the table that an iteration would pass. -/
structure UpdateCall (φ ι : Type) [PyReal φ] where
  obs : PeerObservation φ
  slots : List (Slot ι) := []

/-- What a call leaves, the event it emits and how it ends. -/
structure Updated (φ ι : Type) [PyReal φ] where
  record : PeerRecord φ ι
  events : List (StateTransitionEvent φ) := []
  result : Except UpdateError Unit := .ok ()

section Update

variable {φ ι : Type} [PyReal φ] [DecidableEq ι] (round2 : φ → φ)

/-- The value of the display state that an observation leads to. -/
def displayStateOf (o : PeerObservation φ) : String :=
  (computeDisplayState (computeConfidence round2 o)).value

/-- The record with its counters and caches brought up to date. -/
def PeerRecord.cached (r : PeerRecord φ ι) (o : PeerObservation φ) : PeerRecord φ ι :=
  { r with
    witnessAgreementCount := r.witnessAgreementCount + o.fields.witnessAgreement
    witnessDisagreementCount := r.witnessDisagreementCount + o.fields.witnessDisagreement
    lastConfidence := computeConfidence round2 o
    lastConfidenceTimestamp := some o.timestamp
    latestObservation := some o
    observationCount := r.observationCount + 1 }

/-- The event of a change of the display state. -/
def PeerRecord.transition (r : PeerRecord φ ι) (o : PeerObservation φ) : StateTransitionEvent φ where
  peerId := r.peerId
  oldState := r.displayState
  newState := displayStateOf round2 o
  confidence := computeConfidence round2 o
  timestamp := o.timestamp
  observation := o

/-- The end of a call that has emitted an event: an exception of the loop is not caught. -/
def PeerRecord.settle (cached : PeerRecord φ ι) (event : StateTransitionEvent φ) :
    Finset ι × Except UpdateError Unit → Updated φ ι
  | (stateChangeListeners, .ok ()) =>
      { record := { cached with stateChangeListeners, displayState := some event.newState }
        events := [event] }
  | (stateChangeListeners, .error e) =>
      { record := { cached with stateChangeListeners }, events := [event], result := .error e }

/-- `update_from_observation`. -/
def updateFromObservation (r : PeerRecord φ ι) (call : UpdateCall φ ι) : Updated φ ι :=
  if call.obs.peerId ≠ r.peerId then { record := r, result := .error .valueError }
  else if r.displayState ≠ some (displayStateOf round2 call.obs) then
    (r.cached round2 call.obs).settle (r.transition round2 call.obs)
      (emitStateTransition r.stateChangeListeners.card call.slots r.stateChangeListeners)
  else
    { record :=
        { r.cached round2 call.obs with displayState := some (displayStateOf round2 call.obs) } }

/-- The record that a call leaves. -/
def PeerRecord.step (r : PeerRecord φ ι) (call : UpdateCall φ ι) : PeerRecord φ ι :=
  (updateFromObservation round2 r call).record

end Update

end Perpetua.Membership

import Mathlib.Data.List.Chain
import Mathlib.Data.Rat.Floor
import Perpetua.Lib.PyNumber
import Perpetua.Membership.PeerRecord

/-!
# Theorems about peer records

An update is complete unless a listener leaves the set with another number of elements while it is
iterated over, or ends with an exception that is not caught.
-/

namespace Perpetua.Membership

variable {φ ι : Type} [PyReal φ] [DecidableEq ι] (round2 : φ → φ)

/-! ## The loop over the listeners -/

/-- Whenever the iteration looks at the set it has its first size, and every listener that is called
ends in a way that is caught. -/
def Orderly (listeners : Finset ι) (slots : List (Slot ι)) : Prop :=
  Machine.Along Slot.pass
    (fun now slot => (slot.pass now).card = listeners.card ∧
      (slot.listener ∈ now → slot.ending ≠ .uncaught)) listeners slots

/-- The loop ends without an exception exactly if every step of it is orderly. -/
theorem emit_ok_iff {size : ℕ} {slots : List (Slot ι)} {listeners : Finset ι}
    (hsize : listeners.card = size) :
    (emitStateTransition size slots listeners).2 = .ok () ↔
      Machine.Along Slot.pass
        (fun now slot => (slot.pass now).card = size ∧
          (slot.listener ∈ now → slot.ending ≠ .uncaught)) listeners slots := by
  induction slots generalizing listeners with
  | nil => simp [emitStateTransition, hsize, Machine.Along]
  | cons slot slots ih =>
      rw [emitStateTransition, if_pos hsize, Machine.Along]
      by_cases huncaught : slot.listener ∈ listeners ∧ slot.ending = .uncaught
      · rw [if_pos huncaught]
        constructor
        · intro h
          cases h
        · intro h
          exact absurd huncaught.2 (h.1.2 huncaught.1)
      · rw [if_neg huncaught]
        have hcaught : slot.listener ∈ listeners → slot.ending ≠ .uncaught :=
          fun hmem hending => huncaught ⟨hmem, hending⟩
        by_cases hcard : (slot.pass listeners).card = size
        · rw [ih hcard]
          exact ⟨fun h => ⟨⟨hcard, hcaught⟩, h⟩, fun h => h.2⟩
        · refine ⟨fun h => ?_, fun h => absurd h.1.1 hcard⟩
          cases slots with
          | nil => simp [emitStateTransition, hcard] at h
          | cons next slots => simp [emitStateTransition, hcard] at h

/-! ## One call -/

/-- A call changes the display state. -/
def Transitions (r : PeerRecord φ ι) (call : UpdateCall φ ι) : Prop :=
  r.displayState ≠ some (displayStateOf round2 call.obs)

/-- A call returns normally, its display state is that of its confidence, and it is counted. -/
structure Completes (r : PeerRecord φ ι) (call : UpdateCall φ ι) : Prop where
  returns : (updateFromObservation round2 r call).result = .ok ()
  displayState : (r.step round2 call).displayState =
    some (computeDisplayState (r.step round2 call).lastConfidence).value
  counted : (r.step round2 call).observationCount = r.observationCount + 1

theorem peerId_step (r : PeerRecord φ ι) (call : UpdateCall φ ι) :
    (r.step round2 call).peerId = r.peerId := by
  have hsettle : ∀ (event : StateTransitionEvent φ) (emitted : Finset ι × Except UpdateError Unit),
      ((r.cached round2 call.obs).settle event emitted).record.peerId = r.peerId := by
    rintro event ⟨stateChangeListeners, result⟩
    cases result with
    | ok u => rfl
    | error e => rfl
  unfold PeerRecord.step updateFromObservation
  split
  · rfl
  · split
    · exact hsettle _ _
    · rfl

section Call

variable {round2} {r : PeerRecord φ ι} {call : UpdateCall φ ι}

theorem update_quiet (hpeer : call.obs.peerId = r.peerId) (h : ¬ Transitions round2 r call) :
    updateFromObservation round2 r call =
      { record := { r.cached round2 call.obs with
          displayState := some (displayStateOf round2 call.obs) } } := by
  unfold Transitions at h
  rw [updateFromObservation, if_neg (not_not.mpr hpeer), if_neg h]

theorem update_transition (hpeer : call.obs.peerId = r.peerId) (h : Transitions round2 r call) :
    updateFromObservation round2 r call =
      (r.cached round2 call.obs).settle (r.transition round2 call.obs)
        (emitStateTransition r.stateChangeListeners.card call.slots r.stateChangeListeners) := by
  unfold Transitions at h
  rw [updateFromObservation, if_neg (not_not.mpr hpeer), if_pos h]

theorem completes_iff (hpeer : call.obs.peerId = r.peerId) :
    Completes round2 r call ↔
      (Transitions round2 r call → Orderly r.stateChangeListeners call.slots) := by
  by_cases h : Transitions round2 r call
  · have hupdate := update_transition hpeer h
    rw [Orderly, ← emit_ok_iff rfl]
    generalize emitStateTransition _ call.slots r.stateChangeListeners = emitted at hupdate ⊢
    obtain ⟨stateChangeListeners, result⟩ := emitted
    cases result with
    | ok u =>
        refine ⟨fun _ _ => rfl, fun _ => ?_⟩
        constructor
        · rw [hupdate]; rfl
        · rw [PeerRecord.step, hupdate]; rfl
        · rw [PeerRecord.step, hupdate]; rfl
    | error e =>
        constructor
        · intro hcompletes
          have hreturns := hcompletes.returns
          rw [hupdate] at hreturns
          cases hreturns
        · intro horderly
          cases horderly h
  · refine ⟨fun _ htransitions => absurd htransitions h, fun _ => ?_⟩
    have hupdate := update_quiet hpeer h
    constructor
    · rw [hupdate]
    · rw [PeerRecord.step, hupdate]; rfl
    · rw [PeerRecord.step, hupdate]; rfl

end Call

/-! ## Sequences of calls -/

/-- The events of a sequence of calls. -/
def eventsOf (r : PeerRecord φ ι) (calls : List (UpdateCall φ ι)) : List (StateTransitionEvent φ) :=
  Machine.outputs (PeerRecord.step round2)
    (fun r call => (updateFromObservation round2 r call).events) r calls

/-- Each event begins where the one before it ended, and ends elsewhere. -/
structure Chained (events : List (StateTransitionEvent φ)) : Prop where
  linked : events.IsChain fun e e' => e'.oldState = some e.newState
  changes : ∀ e ∈ events, e.oldState ≠ some e.newState

/-- The events so far form a chain that ends in the record's display state. -/
structure Traced (events : List (StateTransitionEvent φ)) (r : PeerRecord φ ι) : Prop where
  chained : Chained events
  current : ∀ e, events.getLast? = some e → r.displayState = some e.newState

variable {round2}

theorem traced_step {events : List (StateTransitionEvent φ)} {r : PeerRecord φ ι}
    {call : UpdateCall φ ι} (h : Traced events r) (hpeer : call.obs.peerId = r.peerId)
    (hcompletes : Completes round2 r call) :
    Traced (events ++ (updateFromObservation round2 r call).events) (r.step round2 call) := by
  by_cases htransitions : Transitions round2 r call
  · have hreturns := hcompletes.returns
    have hupdate := update_transition hpeer htransitions
    generalize emitStateTransition _ call.slots r.stateChangeListeners = emitted at hupdate
    obtain ⟨stateChangeListeners, result⟩ := emitted
    cases result with
    | error e => rw [hupdate] at hreturns; cases hreturns
    | ok u =>
        rw [PeerRecord.step, hupdate]
        refine ⟨⟨?_, ?_⟩, ?_⟩
        · refine List.isChain_append.mpr ⟨h.chained.linked, List.isChain_singleton _, ?_⟩
          intro e he e' he'
          obtain rfl := Option.some.inj he'
          exact h.current e he
        · intro e he
          rcases List.mem_append.mp he with he | he
          · exact h.chained.changes e he
          · rw [List.mem_singleton.mp he]
            exact htransitions
        · intro e he
          have hlast : some (r.transition round2 call.obs) = some e := by
            rw [← he]
            exact (List.getLast?_concat ..).symm
          rw [← Option.some.inj hlast]
          rfl
  · rw [PeerRecord.step, update_quiet hpeer htransitions, List.append_nil]
    refine ⟨h.chained, fun e he => ?_⟩
    rw [← h.current e he]
    exact (not_not.mp htransitions).symm

/-- Every call is complete and the events form a chain exactly if every call that changes the
display state passes its listeners in order. -/
theorem updates_complete_iff (r : PeerRecord φ ι) (calls : List (UpdateCall φ ι))
    (hpeer : ∀ call ∈ calls, call.obs.peerId = r.peerId) :
    (Machine.Along (PeerRecord.step round2) (Completes round2) r calls ∧
        Chained (eventsOf round2 r calls)) ↔
      Machine.Along (PeerRecord.step round2)
        (fun r call => Transitions round2 r call → Orderly r.stateChangeListeners call.slots)
        r calls := by
  have hsame : Machine.Along (PeerRecord.step round2)
      (fun r call => call.obs.peerId = r.peerId) r calls := by
    induction calls generalizing r with
    | nil => trivial
    | cons call calls ih =>
        refine ⟨hpeer call List.mem_cons_self, ih _ fun call' hcall' => ?_⟩
        rw [peerId_step]
        exact hpeer call' (List.mem_cons_of_mem _ hcall')
  have hcompletes : Machine.Along (PeerRecord.step round2) (Completes round2) r calls ↔
      Machine.Along (PeerRecord.step round2)
        (fun r call => Transitions round2 r call → Orderly r.stateChangeListeners call.slots)
        r calls := by
    constructor
    · intro h
      exact (Machine.along_and.mpr ⟨hsame, h⟩).mono fun r call hc => (completes_iff hc.1).mp hc.2
    · intro h
      exact (Machine.along_and.mpr ⟨hsame, h⟩).mono fun r call hc => (completes_iff hc.1).mpr hc.2
  rw [← hcompletes]
  refine ⟨fun h => h.1, fun h => ⟨h, ?_⟩⟩
  have hstart : Traced [] r :=
    ⟨⟨List.isChain_nil, List.forall_mem_nil _⟩, fun e he => by cases he⟩
  have htraced := (Machine.along_and.mpr ⟨hsame, h⟩).history
    (I := Traced) (o := fun r call => (updateFromObservation round2 r call).events)
    (fun events r call htraced hc => traced_step htraced hc.1 hc.2) hstart
  exact htraced.chained

/-! ## Sample listeners -/

/-- An observation by an observer that has proved its reachability. -/
def provedObservation : PeerObservation ℚ where
  tree := .node
    { peerId := "peer", epoch := 1, timestamp := 0, observerId := "observer"
      observationType := .reachable, directStatus := .reachable, endpoint := "", endpointEpoch := 1
      proofScore := 1, freshnessScore := 1 } []
  valid := by
    refine ⟨?_, by decide, trivial⟩
    simp [Fields.Valid, maxChainDepth]

/-- Rounding to two decimals. -/
def roundCents (q : ℚ) : ℚ := PyNumber.roundHalfEven (q * 100) / 100

/-- Nothing is proved any more. -/
def unprovedObservation : PeerObservation ℚ where
  tree := .node
    { peerId := "peer", epoch := 1, timestamp := 1, observerId := "observer"
      observationType := .reachable, directStatus := .reachable, endpoint := "", endpointEpoch := 1
      proofScore := 0, freshnessScore := 1 } []
  valid := by
    refine ⟨?_, by decide, trivial⟩
    simp [Fields.Valid, maxChainDepth]

/-- A record with two listeners. -/
def watchedRecord : PeerRecord ℚ String :=
  { peerId := "peer", stateChangeListeners := {"listener", "second"} }

/-- One of the record's listeners raises. -/
def raisingCall : UpdateCall ℚ String :=
  { obs := provedObservation
    slots := [{ listener := "listener", ending := .raised }, { listener := "second" }] }

/-- One listener puts another one in its place. -/
def replacingCall : UpdateCall ℚ String :=
  { obs := unprovedObservation
    slots := [{ listener := "listener", changes := [.unsubscribe "listener", .subscribe "third"] },
      { listener := "second" }] }

/-- One of the record's listeners unsubscribes itself. -/
def leavingCall : UpdateCall ℚ String :=
  { obs := provedObservation
    slots := [{ listener := "listener", changes := [.unsubscribe "listener"] }] }

theorem updates_complete_raising :
    Machine.Along (PeerRecord.step roundCents) (Completes roundCents) watchedRecord
      [raisingCall, replacingCall] ∧
    Chained (eventsOf roundCents watchedRecord [raisingCall, replacingCall]) ∧
    (eventsOf roundCents watchedRecord [raisingCall, replacingCall]).map (·.newState) =
      ["HEALTHY", "UNKNOWN"] := by
  rw [← and_assoc]
  refine ⟨(updates_complete_iff watchedRecord [raisingCall, replacingCall] ?_).mpr
    ⟨fun _ => ⟨⟨rfl, by decide⟩, ⟨rfl, by decide⟩, trivial⟩,
      fun _ => ⟨⟨by decide +kernel, by decide⟩, ⟨by decide +kernel, by decide⟩, trivial⟩, trivial⟩,
    by decide +kernel⟩
  intro call hcall
  rcases List.mem_pair.mp hcall with rfl | rfl
  · rfl
  · rfl

/-- A listener that unsubscribes itself makes the call fail. -/
theorem not_complete_leaving :
    ¬ (Machine.Along (PeerRecord.step roundCents) (Completes roundCents) watchedRecord
        [leavingCall] ∧ Chained (eventsOf roundCents watchedRecord [leavingCall])) := by
  rintro ⟨⟨hcompletes, -⟩, -⟩
  have hchanges : Transitions roundCents watchedRecord leavingCall := by
    intro h
    cases h
  have horderly := (completes_iff rfl).mp hcompletes hchanges
  exact absurd horderly.1.1 (by decide)

end Perpetua.Membership

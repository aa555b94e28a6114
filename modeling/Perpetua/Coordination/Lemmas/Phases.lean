import Perpetua.Coordination.Phases
import Perpetua.Queue.Lemmas.Events

/-!
# Snapshots in the log

A snapshot is read back as it was posted, up to the redaction of its texts.
-/

namespace Perpetua.Coordination

open GossipBus Queue Heartbeat

variable {τ : Type}

/-! ## Calls -/

theorem phaseName_assign (phase : PhaseState) (agentId : Option String) :
    (phase.assign agentId).phaseName = phase.phaseName := by
  cases agentId with
  | none => rfl
  | some a => rw [PhaseState.assign]; split <;> rfl

theorem status_assign (phase : PhaseState) (agentId : Option String) :
    (phase.assign agentId).status = phase.status := by
  cases agentId with
  | none => rfl
  | some a => rw [PhaseState.assign]; split <;> rfl

theorem blockers_assign (phase : PhaseState) (agentId : Option String) :
    (phase.assign agentId).blockers = phase.blockers := by
  cases agentId with
  | none => rfl
  | some a => rw [PhaseState.assign]; split <;> rfl

/-- What each call posts. -/
theorem result_cases {call : PhaseCall} {name : String} {now : Json.Number}
    {existing : Option PhaseState} {phase : PhaseState}
    (h : call.result name now existing = some phase) :
    (∃ dependsOn agentId, call = .start dependsOn agentId ∧ phase.status = .inProgress ∧
      (∀ read, existing = some read → read.status ≠ .complete) ∧
      ∃ base : PhaseState, phase = base.assign agentId ∧
        base.blockers = (existing.map (·.blockers)).getD [] ∧
        base.assignedTo = (existing.map (·.assignedTo)).getD [] ∧
        base.phaseName = (existing.map (·.phaseName)).getD name) ∨
    ∃ read, existing = some read ∧
      ((∃ testsPassing totalTests agentId, call = .update testsPassing totalTests agentId ∧
          phase = phaseUpdate testsPassing totalTests agentId read) ∨
        (call = .complete ∧ read.status ≠ .complete ∧ read.blockers = [] ∧
          phase = { read with status := .complete, completedAt := some now }) ∨
        (∃ reason, call = .block reason ∧ phase = phaseBlock reason read) ∨
        ∃ reason, call = .unblock reason ∧ phase = phaseUnblock reason read) := by
  cases call with
  | start dependsOn agentId =>
      refine Or.inl ⟨dependsOn, agentId, rfl, ?_⟩
      rw [PhaseCall.result, phaseStart.eq_def] at h
      cases existing with
      | none =>
          obtain rfl := Option.some.inj h
          refine ⟨status_assign _ _, fun _ heq => ?_, _, rfl, rfl, rfl, rfl⟩
          cases heq
      | some read =>
          dsimp only at h
          split at h
          · cases h
          · rename_i hopen
            obtain rfl := Option.some.inj h
            refine ⟨status_assign _ _, fun _ heq => ?_, _, rfl, rfl, rfl, rfl⟩
            rw [← Option.some.inj heq]
            exact hopen
  | update testsPassing totalTests agentId =>
      obtain ⟨read, rfl, rfl⟩ := Option.map_eq_some_iff.mp h
      exact Or.inr ⟨read, rfl, Or.inl ⟨_, _, _, rfl, rfl⟩⟩
  | complete =>
      obtain ⟨read, rfl, hcomplete⟩ := Option.bind_eq_some_iff.mp h
      unfold phaseComplete at hcomplete
      split at hcomplete
      · cases hcomplete
      · split at hcomplete
        · cases hcomplete
        · rename_i hopen hblockers
          exact Or.inr ⟨read, rfl, Or.inr (Or.inl
            ⟨rfl, hopen, not_not.mp hblockers, (Option.some.inj hcomplete).symm⟩)⟩
  | block reason =>
      obtain ⟨read, rfl, rfl⟩ := Option.map_eq_some_iff.mp h
      exact Or.inr ⟨read, rfl, Or.inr (Or.inr (Or.inl ⟨reason, rfl, rfl⟩))⟩
  | unblock reason =>
      obtain ⟨read, rfl, rfl⟩ := Option.map_eq_some_iff.mp h
      exact Or.inr ⟨read, rfl, Or.inr (Or.inr (Or.inr ⟨reason, rfl, rfl⟩))⟩

/-- A call posts a snapshot of the phase it read. -/
theorem phaseName_result {call : PhaseCall} {name : String} {now : Json.Number}
    {existing : Option PhaseState} {phase : PhaseState}
    (h : call.result name now existing = some phase)
    (hread : ∀ read, existing = some read → read.phaseName = name) : phase.phaseName = name := by
  rcases result_cases h with ⟨_, _, -, -, -, base, rfl, -, -, hname⟩ | ⟨read, rfl, hcases⟩
  · rw [phaseName_assign, hname]
    cases existing with
    | none => rfl
    | some read => exact hread read rfl
  · have hname := hread read rfl
    rcases hcases with ⟨_, _, _, -, rfl⟩ | ⟨-, -, -, rfl⟩ | ⟨_, -, rfl⟩ | ⟨_, -, rfl⟩
    · rw [phaseUpdate, phaseName_assign]
      exact hname
    · exact hname
    · exact hname
    · exact hname

/-! ## The last snapshot -/

theorem getLatestPhaseState_concat (name : String) (log : GossipLog τ) (row : GossipRow τ) :
    getLatestPhaseState name (log ++ [row]) =
      if isPhaseEvent name row then (PhaseState.fromPayload row.payload).map some
      else getLatestPhaseState name log := by
  rw [getLatestPhaseState, List.filter_append]
  by_cases h : isPhaseEvent name row
  · simp [h]
  · simp [h, getLatestPhaseState]

theorem phaseName_of_read {name : String} {log : GossipLog τ} {phase : PhaseState}
    (h : getLatestPhaseState name log = some (some phase)) : phase.phaseName = name := by
  rw [getLatestPhaseState] at h
  cases hlast : (log.filter (isPhaseEvent name)).getLast? with
  | none => rw [hlast] at h; cases h
  | some row =>
      rw [hlast] at h
      obtain ⟨read, hread, heq⟩ := Option.map_eq_some_iff.mp h
      obtain rfl := Option.some.inj heq
      have hrow := (List.mem_filter.mp (List.mem_of_getLast? hlast)).2
      simp only [isPhaseEvent, Bool.and_eq_true, decide_eq_true_eq] at hrow
      simp only [PhaseState.fromPayload, hrow.2, Option.bind_eq_bind, Option.bind_some,
        Option.bind_eq_some_iff] at hread
      obtain ⟨_, _, _, _, _, _, _, _, _, _, _, _, _, _, _, _, _, _, _, _, hread⟩ := hread
      rw [← Option.some.inj hread]

theorem ofValue_value (status : PhaseStatus) : PhaseStatus.ofValue status.value = some status := by
  cases status <;> decide

theorem value_short (status : PhaseStatus) :
    status.value.toList.length ≤ 22 ∧ '@' ∉ status.value.toList := by
  cases status <;> decide

theorem texts?_texts (items : List String) : texts? (texts items) = some items := by
  rw [texts, texts?]
  induction items with
  | nil => rfl
  | cons s items ih => simp [Json.Value.str?, ih]

section Redacted

variable [Redaction.UnicodeTables]

/-- The snapshot as it is stored. -/
def PhaseState.stored (phase : PhaseState) : PhaseState :=
  { phase with
    phaseName := Redaction.redactText phase.phaseName
    assignedTo := phase.assignedTo.map Redaction.redactText
    blockers := phase.blockers.map Redaction.redactText
    dependsOn := phase.dependsOn.map Redaction.redactText
    notes := Redaction.redactText phase.notes }

@[simp] theorem status_stored (phase : PhaseState) : phase.stored.status = phase.status := by
  rw [PhaseState.stored]

@[simp] theorem blockers_stored (phase : PhaseState) :
    phase.stored.blockers = phase.blockers.map Redaction.redactText := by
  rw [PhaseState.stored]

@[simp] theorem assignedTo_stored (phase : PhaseState) :
    phase.stored.assignedTo = phase.assignedTo.map Redaction.redactText := by
  rw [PhaseState.stored]

theorem redactItems_texts (items : List String) :
    Redaction.redactItems (items.map .str) = (items.map Redaction.redactText).map .str := by
  induction items with
  | nil => rfl
  | cons s items ih => rw [List.map_cons, Redaction.redactItems, ih]; rfl

theorem redactValue_texts (items : List String) :
    Redaction.redactValue (texts items) = texts (items.map Redaction.redactText) := by
  rw [texts, texts, Redaction.redactValue, redactItems_texts]

theorem optionalNumber?_redacted (n : Option Json.Number) :
    optionalNumber? (Redaction.redactValue (optionalNumber n)) = some n := by
  cases n <;> rfl

theorem getField_durable {α : Type} {p : Payload} {k : String} {v : Json.Value} (hk : plainKey k)
    (h : Entries.get? p k = some v) (default : α) (read : Json.Value → Option α) :
    getField (durablePayload p) k default read = read (Redaction.redactValue v) := by
  rw [getField, get?_durable hk, h]
  rfl

/-- Round trip: a posted snapshot is read back as it is stored. -/
theorem fromPayload_durable (phase : PhaseState) :
    PhaseState.fromPayload (durablePayload phase.toPayload) = some phase.stored := by
  have hname : field? (durablePayload phase.toPayload) "phase_name" =
      some (Redaction.redactText phase.phaseName) := field?_durable (by decide) rfl
  have hstatus : field? (durablePayload phase.toPayload) "status" = some phase.status.value :=
    field?_durable_const (by decide) rfl (value_short _).1 (value_short _).2
  have hread {α : Type} {k : String} {v : Json.Value} (hk : plainKey k)
      (h : Entries.get? phase.toPayload k = some v) (default : α) (read : Json.Value → Option α) :=
    getField_durable hk h default read
  rw [PhaseState.fromPayload, hname, hstatus,
    hread (k := "assigned_to") (by decide) rfl, hread (k := "total_tests") (by decide) rfl,
    hread (k := "tests_passing") (by decide) rfl, hread (k := "blockers") (by decide) rfl,
    hread (k := "depends_on") (by decide) rfl, hread (k := "started_at") (by decide) rfl,
    hread (k := "completed_at") (by decide) rfl, hread (k := "notes") (by decide) rfl,
    hread (k := "estimated_duration_hours") (by decide) rfl]
  simp only [redactValue_texts, texts?_texts, optionalNumber?_redacted, Redaction.redactValue, asInt?,
    phaseNumber?, Json.Value.str?, Option.bind_eq_bind, Option.bind_some, ofValue_value,
    PhaseState.stored]

theorem isPhaseEvent_posted (name : String) (phase : PhaseState) (uuid : String) (now : τ) :
    isPhaseEvent name ⟨uuid, now, "heartbeat", durablePayload phase.toPayload⟩ =
      decide (Redaction.redactText phase.phaseName = name) := by
  have hkind : field? (durablePayload phase.toPayload) "kind" = some "phase_event" :=
    field?_durable_const (by decide) rfl (by simp) (by simp)
  have hname : field? (durablePayload phase.toPayload) "phase_name" =
      some (Redaction.redactText phase.phaseName) := field?_durable (by decide) rfl
  simp [isPhaseEvent, hkind, hname]

/-- What a phase folds to after the post of a snapshot. -/
theorem getLatestPhaseState_emit (name : String) (phase : PhaseState) (env : WriteEnv τ)
    (log : GossipLog τ) :
    getLatestPhaseState name ((emit phase.toPayload env log).getD log) =
      if Adds env log ∧ Redaction.redactText phase.phaseName = name then some (some phase.stored)
      else getLatestPhaseState name log := by
  rw [emit_getD]
  by_cases hadds : Adds env log
  · rw [if_pos hadds, getLatestPhaseState_concat, isPhaseEvent_posted, fromPayload_durable]
    simp [hadds]
  · rw [if_neg hadds, if_neg (fun h => hadds h.1)]

/-- The call writes to the phase, under whatever name. -/
def Writes (name : String) (log : GossipLog τ) (a : PhaseStep τ) : Prop :=
  Adds a.env log ∧ Redaction.redactText a.phaseName = name

instance (name : String) (log : GossipLog τ) (a : PhaseStep τ) : Decidable (Writes name log a) :=
  inferInstanceAs (Decidable (_ ∧ _))

/-- One call after another: a phase folds to what a call posts to it, if there is such a post. -/
theorem getLatestPhaseState_step (name : String) (log : GossipLog τ) (a : PhaseStep τ) :
    (∃ phase, a.posted log = some phase ∧ Writes name log a ∧
      getLatestPhaseState name (phaseStep log a) = some (some phase.stored)) ∨
    ((∀ phase, a.posted log = some phase → ¬ Writes name log a) ∧
      getLatestPhaseState name (phaseStep log a) = getLatestPhaseState name log) := by
  unfold phaseStep
  cases hposted : a.posted log with
  | none =>
      refine Or.inr ⟨fun _ heq => ?_, rfl⟩
      cases heq
  | some phase =>
      obtain ⟨existing, hexisting, hresult⟩ := Option.bind_eq_some_iff.mp hposted
      have hname : phase.phaseName = a.phaseName := phaseName_result hresult fun read hread =>
        phaseName_of_read (by rw [hexisting, hread])
      dsimp only
      rw [getLatestPhaseState_emit, hname]
      by_cases hwrites : Adds a.env log ∧ Redaction.redactText a.phaseName = name
      · rw [if_pos hwrites]
        exact Or.inl ⟨phase, rfl, hwrites, rfl⟩
      · rw [if_neg hwrites]
        exact Or.inr ⟨fun _ _ => hwrites, rfl⟩

end Redacted

end Perpetua.Coordination

import Perpetua.Coordination.PhaseTheorems

/-!
# Phase operations of several clients

A call reads the snapshot of its phase, works on it and appends the whole of it. What was acknowledged
in between is lost, unless the snapshot it read has it too.
-/

namespace Perpetua.Coordination

open GossipBus Queue Heartbeat

variable {τ ι : Type}

/-! ## What the acknowledged calls have added -/

/-- The `agent_id` of a `phase_start` or a `phase_update`. -/
def PhaseCall.agentId? : PhaseCall → Option String
  | .start _ agentId | .update _ _ agentId => agentId
  | _ => none

/-- A `phase_unblock` resolves a blocker that the state it read contains. -/
def resolve (blockers : List String) (ack : Acknowledgement) : List String :=
  match ack.call, ack.read with
  | .block reason, _ => blockers ++ [reason]
  | .unblock reason, some read =>
      if reason ∈ read.blockers then blockers.filter (· ≠ reason) else blockers
  | _, _ => blockers

/-- The blockers that acknowledged calls have added and none has resolved since. -/
def unresolved (acks : List Acknowledgement) : List String := acks.foldl resolve []

def agentsOf (acks : List Acknowledgement) : List String := acks.filterMap (·.call.agentId?)

/-- The folded state has all of it. -/
structure NoneLost (name : String) (s : PhaseSystem τ ι) : Prop where
  blockers : ∀ reason ∈ unresolved s.acknowledged,
    ∃ phase, folded name s.log = some phase ∧ reason ∈ phase.blockers
  agents : ∀ agentId ∈ agentsOf s.acknowledged,
    ∃ phase, folded name s.log = some phase ∧ agentId ∈ phase.assignedTo

theorem unresolved_concat (acks : List Acknowledgement) (ack : Acknowledgement) :
    unresolved (acks ++ [ack]) = resolve (unresolved acks) ack := by
  rw [unresolved, List.foldl_append]
  rfl

theorem agentsOf_concat (acks : List Acknowledgement) (ack : Acknowledgement) :
    agentsOf (acks ++ [ack]) = agentsOf acks ++ ack.call.agentId?.toList := by
  rw [agentsOf, List.filterMap_append]
  cases h : ack.call.agentId? <;> simp [agentsOf, h]

def blockersRead (read : Option PhaseState) : List String := (read.map (·.blockers)).getD []

def assignedRead (read : Option PhaseState) : List String := (read.map (·.assignedTo)).getD []

/-! ## What a call posts -/

theorem mem_assign {phase : PhaseState} {agentId : Option String} (hne : agentId ≠ some "")
    {a : String} :
    a ∈ (phase.assign agentId).assignedTo ↔ a ∈ phase.assignedTo ∨ agentId = some a := by
  cases agentId with
  | none => simp [PhaseState.assign]
  | some b =>
      rw [PhaseState.assign]
      have hb : b ≠ "" := fun h => hne (by rw [h])
      by_cases hmem : b ∈ phase.assignedTo
      · rw [if_pos (Or.inr hmem)]
        constructor
        · exact Or.inl
        · rintro (h | h)
          · exact h
          · rw [← Option.some.inj h]; exact hmem
      · rw [if_neg (not_or.mpr ⟨hb, hmem⟩)]
        simp [eq_comm]

/-- Nothing of an acknowledged call is lost exactly if the snapshot the call read has what is
unresolved, up to what the call adds itself. -/
theorem blockers_result {call : PhaseCall} {name : String} {now : Json.Number}
    {read : Option PhaseState} {phase : PhaseState} (h : call.result name now read = some phase)
    (pending : List String) :
    (∀ reason ∈ resolve pending ⟨call, read⟩, reason ∈ phase.blockers) ↔
      ∀ reason ∈ pending, reason ∈ blockersRead read ∨ call = .block reason := by
  rcases result_cases h with ⟨_, _, rfl, -, -, base, rfl, hblockers, -, -⟩ | ⟨read, rfl, hcases⟩
  · rw [blockers_assign, hblockers]
    simp [resolve, blockersRead]
  · rcases hcases with ⟨_, _, _, rfl, rfl⟩ | ⟨rfl, -, -, rfl⟩ | ⟨added, rfl, rfl⟩ |
      ⟨freed, rfl, rfl⟩
    · rw [phaseUpdate, blockers_assign]
      simp [resolve, blockersRead]
    · simp [resolve, blockersRead]
    · have hmem (reason : String) : reason ∈ (phaseBlock added read).blockers ↔
          reason ∈ read.blockers ∨ added = reason := by
        unfold phaseBlock
        dsimp only
        split
        · rename_i hknown
          refine ⟨Or.inl, ?_⟩
          rintro (hread | rfl)
          · exact hread
          · exact hknown
        · simp [eq_comm]
      simp only [resolve, blockersRead, hmem, List.mem_append, List.mem_singleton, Option.map_some,
        Option.getD_some, PhaseCall.block.injEq]
      constructor
      · exact fun hall reason hreason => hall reason (Or.inl hreason)
      · rintro hall reason (hreason | rfl)
        · exact hall reason hreason
        · exact Or.inr rfl
    · have hsub {reason : String} (hreason : reason ∈ (phaseUnblock freed read).blockers) :
          reason ∈ read.blockers := List.mem_of_mem_erase hreason
      simp only [resolve, blockersRead, Option.map_some, Option.getD_some, reduceCtorEq, or_false]
      by_cases hfreed : freed ∈ read.blockers
      · rw [if_pos hfreed]
        constructor
        · intro hall reason hreason
          by_cases heq : reason = freed
          · rw [heq]; exact hfreed
          · exact hsub (hall reason (by simp [hreason, heq]))
        · intro hall reason hreason
          simp only [List.mem_filter, decide_eq_true_eq] at hreason
          exact (List.mem_erase_of_ne hreason.2).mpr (hall reason hreason.1)
      · rw [if_neg hfreed]
        have hsame : (phaseUnblock freed read).blockers = read.blockers :=
          List.erase_of_not_mem hfreed
        rw [hsame]

theorem mem_blockers_result {call : PhaseCall} {name : String} {now : Json.Number}
    {read : Option PhaseState} {phase : PhaseState} (h : call.result name now read = some phase)
    {reason : String} (hreason : reason ∈ phase.blockers) :
    reason ∈ blockersRead read ∨ call = .block reason := by
  rcases result_cases h with ⟨_, _, -, -, -, base, rfl, hblockers, -, -⟩ | ⟨read, rfl, hcases⟩
  · rw [blockers_assign, hblockers] at hreason
    exact Or.inl hreason
  · rcases hcases with ⟨_, _, _, -, rfl⟩ | ⟨-, -, -, rfl⟩ | ⟨added, rfl, rfl⟩ | ⟨_, -, rfl⟩
    · rw [phaseUpdate, blockers_assign] at hreason
      exact Or.inl hreason
    · exact Or.inl hreason
    · unfold phaseBlock at hreason
      dsimp only at hreason
      split at hreason
      · exact Or.inl hreason
      · rcases List.mem_append.mp hreason with hold | hown
        · exact Or.inl hold
        · rw [List.mem_singleton.mp hown]
          exact Or.inr rfl
    · exact Or.inl (List.mem_of_mem_erase hreason)

theorem assigned_result {call : PhaseCall} {name : String} {now : Json.Number}
    {read : Option PhaseState} {phase : PhaseState} (h : call.result name now read = some phase)
    (hne : call.agentId? ≠ some "") (agentId : String) :
    agentId ∈ phase.assignedTo ↔ agentId ∈ assignedRead read ∨ call.agentId? = some agentId := by
  rcases result_cases h with ⟨_, _, rfl, -, -, base, rfl, -, hassigned, -⟩ | ⟨read, rfl, hcases⟩
  · simp only [PhaseCall.agentId?] at hne ⊢
    rw [mem_assign hne, hassigned]
    rfl
  · rcases hcases with ⟨_, _, _, rfl, rfl⟩ | ⟨rfl, -, -, rfl⟩ | ⟨_, rfl, rfl⟩ | ⟨_, rfl, rfl⟩
    · simp only [PhaseCall.agentId?] at hne ⊢
      rw [phaseUpdate, mem_assign hne]
      rfl
    · simp [assignedRead, PhaseCall.agentId?]
    · simp [assignedRead, PhaseCall.agentId?, phaseBlock]
    · simp [assignedRead, PhaseCall.agentId?, phaseUnblock]

/-- A complete snapshot has no blockers. -/
def Finished (phase : PhaseState) : Prop := phase.status = .complete → phase.blockers = []

theorem finished_result {call : PhaseCall} {name : String} {now : Json.Number}
    {read : Option PhaseState} {phase : PhaseState} (h : call.result name now read = some phase)
    (hread : ∀ before, read = some before → Finished before) : Finished phase := by
  intro hstatus
  rcases result_cases h with ⟨_, _, -, hstarted, -⟩ | ⟨before, rfl, hcases⟩
  · rw [hstarted] at hstatus
    cases hstatus
  · rcases hcases with ⟨_, _, _, -, rfl⟩ | ⟨-, -, hnil, rfl⟩ | ⟨_, -, rfl⟩ | ⟨_, -, rfl⟩
    · rw [phaseUpdate, status_assign] at hstatus
      rw [phaseUpdate, blockers_assign]
      exact hread before rfl hstatus
    · exact hnil
    · cases hstatus
    · unfold phaseUnblock at hstatus
      dsimp only at hstatus
      split at hstatus <;> cases hstatus

/-- A complete snapshot is posted by a call that read no blockers, and that adds none. -/
theorem blockersRead_of_complete {call : PhaseCall} {name : String} {now : Json.Number}
    {read : Option PhaseState} {phase : PhaseState} (h : call.result name now read = some phase)
    (hread : ∀ before, read = some before → Finished before) (hstatus : phase.status = .complete) :
    blockersRead read = [] ∧ ∀ reason, call ≠ .block reason := by
  rcases result_cases h with ⟨_, _, -, hstarted, -⟩ | ⟨before, rfl, hcases⟩
  · rw [hstarted] at hstatus
    cases hstatus
  · rcases hcases with ⟨_, _, _, rfl, rfl⟩ | ⟨rfl, -, hnil, rfl⟩ | ⟨_, -, rfl⟩ | ⟨_, -, rfl⟩
    · rw [phaseUpdate, status_assign] at hstatus
      exact ⟨hread before rfl hstatus, by simp⟩
    · exact ⟨hnil, by simp⟩
    · cases hstatus
    · unfold phaseUnblock at hstatus
      dsimp only at hstatus
      split at hstatus <;> cases hstatus

/-! ## Interleavings -/

section Interleaved

variable [Redaction.UnicodeTables]

/-- What the call adds to the snapshot is not empty, and redaction leaves it as it is. -/
structure PhaseCall.Plain (call : PhaseCall) : Prop where
  agentId : ∀ a, call.agentId? = some a → a ≠ "" ∧ Redaction.redactText a = a
  reason : ∀ reason, call = .block reason → Redaction.redactText reason = reason

structure PlainState (phase : PhaseState) : Prop where
  blockers : ∀ reason ∈ phase.blockers, Redaction.redactText reason = reason
  assigned : ∀ a ∈ phase.assignedTo, Redaction.redactText a = a

theorem PlainState.stored {phase : PhaseState} (h : PlainState phase) :
    phase.stored.blockers = phase.blockers ∧ phase.stored.assignedTo = phase.assignedTo := by
  rw [blockers_stored, assignedTo_stored]
  have hsame {items : List String} (h : ∀ t ∈ items, Redaction.redactText t = t) :
      items.map Redaction.redactText = items :=
    (List.map_congr_left h).trans (List.map_id _)
  exact ⟨hsame h.blockers, hsame h.assigned⟩

theorem PhaseCall.Plain.result {call : PhaseCall} (hcall : call.Plain) {name : String}
    {now : Json.Number} {read : Option PhaseState} {phase : PhaseState}
    (h : call.result name now read = some phase)
    (hread : ∀ before, read = some before → PlainState before) : PlainState phase := by
  have hblockers : ∀ reason ∈ blockersRead read, Redaction.redactText reason = reason := by
    cases read with
    | none => exact fun _ hmem => absurd hmem List.not_mem_nil
    | some before => exact (hread before rfl).blockers
  have hassigned : ∀ a ∈ assignedRead read, Redaction.redactText a = a := by
    cases read with
    | none => exact fun _ hmem => absurd hmem List.not_mem_nil
    | some before => exact (hread before rfl).assigned
  refine ⟨fun reason hreason => ?_, fun a ha => ?_⟩
  · rcases mem_blockers_result h hreason with hold | hown
    · exact hblockers reason hold
    · exact hcall.reason reason hown
  · rcases (assigned_result h (fun hempty => (hcall.agentId _ hempty).1 rfl) a).mp ha with hold | hown
    · exact hassigned a hold
    · exact (hcall.agentId a hown).2

/-- What the steps keep, whatever the clients do. -/
structure Steady (name : String) (calls : ι → PhaseCall) (s : PhaseSystem τ ι) : Prop where
  readable : ∃ existing, getLatestPhaseState name s.log = some existing ∧
    ∀ phase, existing = some phase → PlainState phase ∧ Finished phase
  pending : ∀ i read result, s.state i = .pending read result →
    (∃ now, (calls i).result name now read = some result) ∧ result.phaseName = name ∧
      ∀ before, read = some before → PlainState before ∧ Finished before

variable [DecidableEq ι] {name : String} {calls : ι → PhaseCall}

theorem append_pending {s : PhaseSystem τ ι} {i : ι} {read : Option PhaseState} {result : PhaseState}
    (h : s.state i = .pending read result) {env : WriteEnv τ} (haccess : env.access = .granted) :
    s.step name calls (.append i env) =
      { log := (emit result.toPayload env s.log).getD s.log
        state := Function.update s.state i .acknowledged
        acknowledged := s.acknowledged ++ [⟨calls i, read⟩] } := by
  have hemit := emit_granted haccess result.toPayload s.log
  simp only [PhaseSystem.step, h]
  generalize emit result.toPayload env s.log = posted at hemit ⊢
  cases posted with
  | none => cases hemit
  | some log => rfl

variable (name calls) in
/-- A step that appends nothing keeps the log, the acknowledged calls and the pending ones. -/
theorem append_nothing {s : PhaseSystem τ ι} {i : ι} {env : WriteEnv τ}
    (h : ∀ read result, s.state i = .pending read result → env.access ≠ .granted) :
    (s.step name calls (.append i env)).log = s.log ∧
      (s.step name calls (.append i env)).acknowledged = s.acknowledged ∧
      ∀ j read result, (s.step name calls (.append i env)).state j = .pending read result →
        s.state j = .pending read result := by
  rw [PhaseSystem.step]
  cases hstate : s.state i with
  | pending read result =>
      simp only [emit_not_granted (h read result hstate)]
      refine ⟨rfl, rfl, fun j read result hj => ?_⟩
      simp only [PhaseSystem.move, Function.update_apply] at hj
      split at hj
      · cases hj
      · exact hj
  | idle | acknowledged | refused | raised => exact ⟨rfl, rfl, fun _ _ _ hj => hj⟩

variable (name calls) in
theorem read_log (s : PhaseSystem τ ι) (i : ι) (now : Json.Number) :
    (s.step name calls (.read i now)).log = s.log ∧
      (s.step name calls (.read i now)).acknowledged = s.acknowledged := by
  rw [PhaseSystem.step]
  split
  · exact ⟨rfl, rfl⟩
  · split <;> exact ⟨rfl, rfl⟩
  · exact ⟨rfl, rfl⟩

theorem read_pending {s : PhaseSystem τ ι} {i j : ι} {now : Json.Number}
    {read : Option PhaseState} {result : PhaseState}
    (h : (s.step name calls (.read i now)).state j = .pending read result) :
    s.state j = .pending read result ∨ i = j ∧ getLatestPhaseState name s.log = some read ∧
      (calls i).result name now read = some result := by
  rw [PhaseSystem.step] at h
  split at h
  · simp only [PhaseSystem.move, Function.update_apply] at h
    split at h
    · cases h
    · exact Or.inl h
  · rename_i existing _ hread
    split at h
    · simp only [PhaseSystem.move, Function.update_apply] at h
      split at h
      · cases h
      · exact Or.inl h
    · rename_i posted hposted
      simp only [PhaseSystem.move, Function.update_apply] at h
      split at h
      · rename_i hij
        cases h
        exact Or.inr ⟨hij.symm, hread, hposted⟩
      · exact Or.inl h
  · exact Or.inl h

/-- A post that is let through draws a new event uuid. -/
def DrawsFresh (s : PhaseSystem τ ι) : PhaseAction τ ι → Prop
  | .append _ env => env.access = .granted → Adds env s.log
  | .read _ _ => True

theorem append_folded (hname : Redaction.redactText name = name) {s : PhaseSystem τ ι}
    (h : Steady name calls s) {i : ι} {read : Option PhaseState} {result : PhaseState}
    (hstate : s.state i = .pending read result) {env : WriteEnv τ} (hadds : Adds env s.log) :
    getLatestPhaseState name (s.step name calls (.append i env)).log = some (some result.stored) := by
  obtain ⟨-, hresult, -⟩ := h.pending i read result hstate
  rw [append_pending hstate hadds.1]
  dsimp only
  rw [getLatestPhaseState_emit, hresult, if_pos ⟨hadds, hname⟩]

theorem Steady.step (hname : Redaction.redactText name = name) (hplain : ∀ i, (calls i).Plain)
    {s : PhaseSystem τ ι} (h : Steady name calls s) {a : PhaseAction τ ι} (hfresh : DrawsFresh s a) :
    Steady name calls (s.step name calls a) := by
  obtain ⟨existing, hread, hexisting⟩ := h.readable
  cases a with
  | read i now =>
      refine ⟨⟨existing, by rw [(read_log name calls s i now).1]; exact hread, hexisting⟩, ?_⟩
      intro j read result hj
      rcases read_pending hj with hold | ⟨rfl, hlatest, hresult⟩
      · exact h.pending j read result hold
      · rw [hread] at hlatest
        obtain rfl := Option.some.inj hlatest
        refine ⟨⟨now, hresult⟩, ?_, hexisting⟩
        exact phaseName_result hresult fun before hbefore =>
          phaseName_of_read (by rw [hread, hbefore])
  | append i env =>
      by_cases happends : ∃ read result, s.state i = .pending read result ∧ env.access = .granted
      · obtain ⟨read, result, hstate, haccess⟩ := happends
        obtain ⟨⟨now, hresult⟩, -, hbefore⟩ := h.pending i read result hstate
        have hplainResult := (hplain i).result hresult fun before hb => (hbefore before hb).1
        have hfinished := finished_result hresult fun before hb => (hbefore before hb).2
        refine ⟨⟨_, append_folded hname h hstate (hfresh haccess), fun phase hphase => ?_⟩, ?_⟩
        · obtain rfl := Option.some.inj hphase
          obtain ⟨hblockers, hassigned⟩ := hplainResult.stored
          refine ⟨⟨?_, ?_⟩, ?_⟩
          · rw [hblockers]; exact hplainResult.blockers
          · rw [hassigned]; exact hplainResult.assigned
          · rw [Finished, status_stored, hblockers]; exact hfinished
        · intro j read' result' hj
          rw [append_pending hstate haccess] at hj
          simp only [Function.update_apply] at hj
          split at hj
          · cases hj
          · exact h.pending j read' result' hj
      · have hnothing : ∀ read result, s.state i = .pending read result → env.access ≠ .granted :=
          fun read result hstate haccess => happends ⟨read, result, hstate, haccess⟩
        obtain ⟨hlog, -, hstates⟩ := append_nothing name calls hnothing
        refine ⟨⟨existing, by rw [hlog]; exact hread, hexisting⟩, fun j read result hj => ?_⟩
        exact h.pending j read result (hstates j read result hj)

/-- When a call appends, the snapshot it read has every blocker that is unresolved and every agent that
has been acknowledged, up to what the call adds itself. -/
def Current (calls : ι → PhaseCall) (s : PhaseSystem τ ι) : PhaseAction τ ι → Prop
  | .append i env =>
      match s.state i with
      | .pending read _ => env.access = .granted →
          (∀ reason ∈ unresolved s.acknowledged,
            reason ∈ blockersRead read ∨ calls i = .block reason) ∧
          ∀ agentId ∈ agentsOf s.acknowledged,
            agentId ∈ assignedRead read ∨ (calls i).agentId? = some agentId
      | _ => True
  | .read _ _ => True

/-- After the step nothing of the acknowledged calls is lost; and a complete snapshot is appended only
when no blocker before it is unresolved. -/
structure KeepsUpdates (name : String) (calls : ι → PhaseCall) (s : PhaseSystem τ ι)
    (a : PhaseAction τ ι) : Prop where
  noneLost : NoneLost name (s.step name calls a)
  complete : (s.step name calls a).log ≠ s.log →
    statusOf name (s.step name calls a).log = some .complete → unresolved s.acknowledged = []

theorem noneLost_append_iff (hname : Redaction.redactText name = name)
    (hplain : ∀ i, (calls i).Plain) {s : PhaseSystem τ ι} (h : Steady name calls s) {i : ι}
    {read : Option PhaseState} {result : PhaseState} (hstate : s.state i = .pending read result)
    {env : WriteEnv τ} (hadds : Adds env s.log) :
    NoneLost name (s.step name calls (.append i env)) ↔
      (∀ reason ∈ unresolved s.acknowledged,
        reason ∈ blockersRead read ∨ calls i = .block reason) ∧
      ∀ agentId ∈ agentsOf s.acknowledged,
        agentId ∈ assignedRead read ∨ (calls i).agentId? = some agentId := by
  obtain ⟨⟨now, hresult⟩, -, hbefore⟩ := h.pending i read result hstate
  obtain ⟨hblockers, hassigned⟩ :=
    ((hplain i).result hresult fun before hb => (hbefore before hb).1).stored
  have hfolded := folded_eq_some.mpr (append_folded hname h hstate hadds)
  have hacks : (s.step name calls (.append i env)).acknowledged =
      s.acknowledged ++ [⟨calls i, read⟩] := by rw [append_pending hstate hadds.1]
  have hnone : NoneLost name (s.step name calls (.append i env)) ↔
      (∀ reason ∈ resolve (unresolved s.acknowledged) ⟨calls i, read⟩, reason ∈ result.blockers) ∧
      ∀ agentId ∈ agentsOf s.acknowledged ++ (calls i).agentId?.toList,
        agentId ∈ result.assignedTo := by
    constructor
    · rintro ⟨hleft, hright⟩
      rw [hacks, unresolved_concat, hfolded] at hleft
      rw [hacks, agentsOf_concat, hfolded] at hright
      refine ⟨fun reason hreason => ?_, fun a ha => ?_⟩
      · obtain ⟨phase, hphase, hmem⟩ := hleft reason hreason
        rwa [← Option.some.inj hphase, hblockers] at hmem
      · obtain ⟨phase, hphase, hmem⟩ := hright a ha
        rwa [← Option.some.inj hphase, hassigned] at hmem
    · rintro ⟨hleft, hright⟩
      refine ⟨fun reason hreason => ⟨_, hfolded, ?_⟩, fun a ha => ⟨_, hfolded, ?_⟩⟩
      · rw [hacks, unresolved_concat] at hreason
        rw [hblockers]
        exact hleft reason hreason
      · rw [hacks, agentsOf_concat] at ha
        rw [hassigned]
        exact hright a ha
  have hagents (a : String) := assigned_result hresult
    (fun hempty => ((hplain i).agentId _ hempty).1 rfl) a
  rw [hnone, blockers_result hresult]
  refine and_congr_right fun _ => ?_
  simp only [List.mem_append, Option.mem_toList, hagents]
  constructor
  · exact fun hall a ha => hall a (Or.inl ha)
  · rintro hall a (ha | ha)
    · exact hall a ha
    · exact Or.inr ha

theorem Steady.updates_iff (hname : Redaction.redactText name = name)
    (hplain : ∀ i, (calls i).Plain) {s : PhaseSystem τ ι} (h : Steady name calls s)
    {a : PhaseAction τ ι} (hfresh : DrawsFresh s a) :
    (KeepsUpdates name calls s a → Current calls s a) ∧
      (NoneLost name s → Current calls s a → KeepsUpdates name calls s a) := by
  cases a with
  | read i now =>
      obtain ⟨hlog, hacks⟩ := read_log name calls s i now
      refine ⟨fun _ => trivial, fun hnone _ => ⟨⟨?_, ?_⟩, fun hne => absurd hlog hne⟩⟩
      · rw [hacks, hlog]; exact hnone.blockers
      · rw [hacks, hlog]; exact hnone.agents
  | append i env =>
      by_cases happends : ∃ read result, s.state i = .pending read result ∧ env.access = .granted
      · obtain ⟨read, result, hstate, haccess⟩ := happends
        have hadds := hfresh haccess
        have hiff := noneLost_append_iff hname hplain h hstate hadds
        simp only [Current, hstate]
        refine ⟨fun hkeeps _ => hiff.mp hkeeps.noneLost, fun _ hcurrent => ?_⟩
        obtain ⟨hblockers, hagents⟩ := hcurrent haccess
        refine ⟨hiff.mpr ⟨hblockers, hagents⟩, fun _ hcomplete => ?_⟩
        -- A complete snapshot comes from one without blockers, so none is unresolved.
        rw [statusOf, folded_eq_some.mpr (append_folded hname h hstate hadds), Option.map_some,
          Option.some.injEq, status_stored] at hcomplete
        obtain ⟨⟨now, hresult⟩, -, hbefore⟩ := h.pending i read result hstate
        obtain ⟨hnil, hother⟩ :=
          blockersRead_of_complete hresult (fun before hb => (hbefore before hb).2) hcomplete
        refine List.eq_nil_iff_forall_not_mem.mpr fun reason hreason => ?_
        rcases hblockers reason hreason with hread | hown
        · rw [hnil] at hread
          exact List.not_mem_nil hread
        · exact hother reason hown
      · have hnothing : ∀ read result, s.state i = .pending read result → env.access ≠ .granted :=
          fun read result hstate haccess => happends ⟨read, result, hstate, haccess⟩
        obtain ⟨hlog, hacks, -⟩ := append_nothing name calls hnothing
        refine ⟨fun _ => ?_, fun hnone _ => ⟨⟨?_, ?_⟩, fun hne => absurd hlog hne⟩⟩
        · rw [Current]
          split
          · rename_i read result hstate
            exact fun haccess => absurd haccess (hnothing read result hstate)
          · trivial
        · rw [hacks, hlog]; exact hnone.blockers
        · rw [hacks, hlog]; exact hnone.agents

/-- Any number of clients on one phase, whose texts redaction leaves alone: nothing that was
acknowledged is lost, and nothing is completed over an unresolved blocker, exactly in the runs whose
appends come from snapshots that have it all. -/
theorem keepsUpdates_iff (hname : Redaction.redactText name = name) (hplain : ∀ i, (calls i).Plain)
    {s : PhaseSystem τ ι} (hlog : getLatestPhaseState name s.log = some none)
    (hidle : ∀ i, s.state i = .idle) (hacks : s.acknowledged = []) {steps : List (PhaseAction τ ι)}
    (hfresh : Machine.Along (PhaseSystem.step name calls) DrawsFresh s steps) :
    Machine.Along (PhaseSystem.step name calls) (KeepsUpdates name calls) s steps ↔
      Machine.Along (PhaseSystem.step name calls) (Current calls) s steps := by
  have hsteady : Steady name calls s :=
    ⟨⟨none, hlog, fun _ h => by cases h⟩, fun i _ _ hi => by rw [hidle i] at hi; cases hi⟩
  have hnone : NoneLost name s := by
    refine ⟨fun _ h => ?_, fun _ h => ?_⟩ <;> (rw [hacks] at h; exact absurd h List.not_mem_nil)
  have hsteps := hfresh.strengthen (I := Steady name calls)
    (fun _ _ hs hf => hs.step hname hplain hf) hsteady
  constructor
  · intro hkeeps
    refine (Machine.along_and.mpr ⟨hsteps, hkeeps⟩).mono fun s a hc => ?_
    exact (hc.1.1.updates_iff hname hplain hc.1.2).1 hc.2
  · intro hcurrent
    have hboth := (Machine.along_and.mpr ⟨hsteps, hcurrent⟩).strengthen (I := NoneLost name)
      (fun s a hn hc => ((hc.1.1.updates_iff hname hplain hc.1.2).2 hn hc.2).noneLost) hnone
    exact hboth.mono fun s a hc =>
      (hc.2.1.1.updates_iff hname hplain hc.2.1.2).2 hc.1 hc.2.2

end Interleaved

section SampleRaces

attribute [local instance] sampleTables

instance currentDecidable (calls : Fin 3 → PhaseCall) (s : PhaseSystem ℚ (Fin 3))
    (a : PhaseAction ℚ (Fin 3)) : Decidable (Current calls s a) := by
  cases a with
  | read i now => exact isTrue trivial
  | append i env => unfold Current; dsimp only; split <;> infer_instance

instance drawsFreshDecidable (s : PhaseSystem ℚ (Fin 3)) (a : PhaseAction ℚ (Fin 3)) :
    Decidable (DrawsFresh s a) := by
  cases a <;> (unfold DrawsFresh; infer_instance)

local instance threeCalls : NeZero 3 := inferInstance

/-- A start and two blocks. -/
def startAndBlocks : Fin 3 → PhaseCall
  | 0 => .start none (some "A")
  | 1 => .block "r"
  | 2 => .block "q"

theorem plain_startAndBlocks : ∀ i, (startAndBlocks i).Plain
  | 0 => ⟨fun a ha => by cases ha; decide +kernel, fun _ h => by cases h⟩
  | 1 => ⟨fun _ ha => (by cases ha), fun _ h => by cases h; decide +kernel⟩
  | 2 => ⟨fun _ ha => (by cases ha), fun _ h => by cases h; decide +kernel⟩

def appendSample (i : Fin 3) (uuid : String) : PhaseAction ℚ (Fin 3) :=
  .append i ⟨.granted, uuid, 0⟩

/-- One call after another. -/
def blocksInTurn : List (PhaseAction ℚ (Fin 3)) :=
  [.read 0 (.int 0), appendSample 0 "u0", .read 1 (.int 0), appendSample 1 "u1", .read 2 (.int 0),
    appendSample 2 "u2"]

theorem keepsUpdates_blocksInTurn :
    Machine.Along (PhaseSystem.step "p" startAndBlocks) (KeepsUpdates "p" startAndBlocks) {}
      blocksInTurn :=
  (keepsUpdates_iff (by decide +kernel) plain_startAndBlocks rfl (fun _ => rfl) rfl
    (by decide +kernel)).mpr (by decide +kernel)

/-- Both blocks read the phase before either appends. -/
def blocksRacing : List (PhaseAction ℚ (Fin 3)) :=
  [.read 0 (.int 0), appendSample 0 "u0", .read 1 (.int 0), .read 2 (.int 0), appendSample 1 "u1",
    appendSample 2 "u2"]

theorem not_keepsUpdates_blocksRacing :
    ¬ Machine.Along (PhaseSystem.step "p" startAndBlocks) (KeepsUpdates "p" startAndBlocks) {}
      blocksRacing := by
  rintro ⟨-, -, -, -, -, hlast, -⟩
  obtain ⟨phase, hphase, hmem⟩ := hlast.noneLost.blockers "r" (by decide +kernel)
  have hlost : ∀ phase, folded "p" (Machine.run (PhaseSystem.step "p" startAndBlocks)
      ({} : PhaseSystem ℚ (Fin 3)) blocksRacing).log = some phase → "r" ∉ phase.blockers := by
    decide +kernel
  exact hlost phase hphase hmem

end SampleRaces

end Perpetua.Coordination

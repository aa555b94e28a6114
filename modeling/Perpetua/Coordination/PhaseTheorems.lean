import Perpetua.Coordination.Lemmas.Phases
import Perpetua.Heartbeat.Theorems

/-!
# Runs of phase operations

One call after another, each on a phase of its own choice. Only `phase_start` looks at whether the phase
is complete, and only `phase_unblock` works the status out of the blockers. A call reads the snapshots
under the name it is given and posts to the phase that redaction makes of the name.
-/

namespace Perpetua.Coordination

open GossipBus Queue Heartbeat

variable {τ : Type}

/-- The state that the phase folds to, if it has one that can be read. -/
def folded (name : String) (log : GossipLog τ) : Option PhaseState :=
  (getLatestPhaseState name log).getD none

theorem folded_eq_some {name : String} {log : GossipLog τ} {phase : PhaseState} :
    folded name log = some phase ↔ getLatestPhaseState name log = some (some phase) := by
  unfold folded
  rcases getLatestPhaseState name log with _ | _ | _ <;> simp

def statusOf (name : String) (log : GossipLog τ) : Option PhaseStatus :=
  (folded name log).map (·.status)

def PhaseCall.isStart : PhaseCall → Bool
  | .start .. => true
  | _ => false

def PhaseCall.isUpdate : PhaseCall → Bool
  | .update .. => true
  | _ => false

/-- The call goes on to post a snapshot that is not complete, with what it has read: a `phase_block` and
a `phase_unblock` of any phase, a `phase_start` and a `phase_update` unless the phase is complete. -/
def PhaseCall.reopens (existing : Option PhaseState) : PhaseCall → Bool
  | .start .. => existing.all fun phase => phase.status ≠ .complete
  | .update .. => existing.any fun phase => phase.status ≠ .complete
  | .complete => false
  | .block _ | .unblock _ => existing.isSome

/-- What a call posts is complete unless the call reopens. -/
theorem status_result {call : PhaseCall} {name : String} {now : Json.Number}
    {existing : Option PhaseState} {phase : PhaseState}
    (h : call.result name now existing = some phase) :
    phase.status = .complete ↔ call.reopens existing = false := by
  rcases result_cases h with ⟨_, _, rfl, hstatus, hopen, -⟩ | ⟨read, rfl, hcases⟩
  · rw [hstatus, PhaseCall.reopens]
    cases existing with
    | none => simp
    | some read => simpa using hopen read rfl
  · rcases hcases with ⟨_, _, _, rfl, rfl⟩ | ⟨rfl, -, -, rfl⟩ | ⟨reason, rfl, rfl⟩ |
      ⟨reason, rfl, rfl⟩
    · rw [phaseUpdate, status_assign]
      simp [PhaseCall.reopens]
    · simp [PhaseCall.reopens]
    · simp [phaseBlock, PhaseCall.reopens]
    · have hreopened : (phaseUnblock reason read).status ≠ .complete := by
        unfold phaseUnblock
        dsimp only
        split <;> simp
      simp [hreopened, PhaseCall.reopens]

/-- A call that reopens posts. -/
theorem result_of_reopens {call : PhaseCall} {name : String} {now : Json.Number}
    {existing : Option PhaseState} (h : call.reopens existing) :
    ∃ phase, call.result name now existing = some phase := by
  cases call with
  | start dependsOn agentId =>
      rw [PhaseCall.result, phaseStart.eq_def]
      cases existing with
      | none => exact ⟨_, rfl⟩
      | some read =>
          have hopen : read.status ≠ .complete := by simpa [PhaseCall.reopens] using h
          exact ⟨_, if_neg hopen⟩
  | complete => cases h
  | update _ _ _ | block _ | unblock _ =>
      cases existing with
      | none => cases h
      | some read => exact ⟨_, rfl⟩

section Runs

variable [Redaction.UnicodeTables]

/-! ## Complete phases -/

/-- No call that reopens writes to a complete phase. -/
def RespectsComplete (name : String) (log : GossipLog τ) (a : PhaseStep τ) : Prop :=
  statusOf name log = some .complete → Writes name log a →
    ∀ existing ∈ getLatestPhaseState a.phaseName log, a.call.reopens existing = false

instance (name : String) (log : GossipLog τ) (a : PhaseStep τ) :
    Decidable (RespectsComplete name log a) :=
  inferInstanceAs (Decidable (_ → _ → ∀ existing ∈ getLatestPhaseState a.phaseName log, _))

theorem keepsComplete_iff {name : String} {log : GossipLog τ} {a : PhaseStep τ} :
    (statusOf name log = some .complete → statusOf name (phaseStep log a) = some .complete) ↔
      RespectsComplete name log a := by
  refine imp_congr_right fun hcomplete => ?_
  rcases getLatestPhaseState_step name log a with ⟨phase, hposted, hwrites, hafter⟩ |
    ⟨hsilent, hafter⟩
  · have hkept : statusOf name (phaseStep log a) = some .complete ↔ phase.status = .complete := by
      rw [statusOf, folded_eq_some.mpr hafter]
      simp
    obtain ⟨existing, hexisting, hresult⟩ := Option.bind_eq_some_iff.mp hposted
    rw [hkept, status_result hresult, hexisting]
    simp [hwrites]
  · rw [statusOf, folded, hafter, ← folded, ← statusOf]
    refine iff_of_true hcomplete fun hwrites existing hexisting => ?_
    rw [← Bool.not_eq_true]
    intro hreopens
    obtain ⟨phase, hresult⟩ := result_of_reopens hreopens
    exact hsilent phase (Option.bind_eq_some_iff.mpr ⟨existing, hexisting, hresult⟩) hwrites

/-- From any log: a complete phase stays complete exactly in the runs in which no call that reopens
writes to it while it is complete. -/
theorem complete_final_iff (name : String) (log : GossipLog τ) (steps : List (PhaseStep τ)) :
    (∀ pre mid post, steps = pre ++ mid ++ post →
      statusOf name (Machine.run phaseStep log pre) = some .complete →
        statusOf name (Machine.run phaseStep log (pre ++ mid)) = some .complete) ↔
      Machine.Along phaseStep (RespectsComplete name) log steps := by
  rw [← Machine.along_stays_iff (P := fun log => statusOf name log = some .complete)]
  exact ⟨fun h => h.mono fun _ _ => keepsComplete_iff.mp,
    fun h => h.mono fun _ _ => keepsComplete_iff.mpr⟩

/-! ## Blocked phases -/

structure Matched (phase : PhaseState) : Prop where
  blocked : phase.status = .blocked ↔ phase.blockers ≠ []
  complete : phase.status = .complete → phase.blockers = []

omit [Redaction.UnicodeTables] in
theorem matched_iff {phase : PhaseState} : Matched phase ↔
    (phase.status = .blocked ↔ phase.blockers ≠ []) ∧
      (phase.status = .complete → phase.blockers = []) :=
  ⟨fun h => ⟨h.blocked, h.complete⟩, fun h => ⟨h.1, h.2⟩⟩

instance (phase : PhaseState) : Decidable (Matched phase) := decidable_of_iff _ matched_iff.symm

/-- The folded state is blocked exactly when it has blockers. -/
def FoldedMatched (name : String) (log : GossipLog τ) : Prop :=
  ∀ phase, folded name log = some phase → Matched phase

/-- A `phase_start` that writes to the phase finds no blockers, and a `phase_update` under another name
finds a snapshot that matches. -/
def StartsUnblocked (name : String) (log : GossipLog τ) (a : PhaseStep τ) : Prop :=
  Writes name log a → ∀ phase, folded a.phaseName log = some phase →
    (a.call.isStart → phase.status = .complete ∨ phase.blockers = []) ∧
      (a.call.isUpdate → a.phaseName ≠ name → Matched phase)

instance (name : String) (log : GossipLog τ) (a : PhaseStep τ) :
    Decidable (StartsUnblocked name log a) :=
  inferInstanceAs (Decidable (_ → ∀ phase, folded a.phaseName log = some phase → _))

theorem matched_stored (phase : PhaseState) : Matched phase.stored ↔ Matched phase := by
  have hblockers : phase.stored.blockers = [] ↔ phase.blockers = [] := by simp
  constructor
  · rintro ⟨hblocked, hcomplete⟩
    rw [status_stored, ne_eq, hblockers] at hblocked
    rw [status_stored, hblockers] at hcomplete
    exact ⟨hblocked, hcomplete⟩
  · rintro ⟨hblocked, hcomplete⟩
    refine ⟨?_, ?_⟩
    · rwa [status_stored, ne_eq, hblockers]
    · rwa [status_stored, hblockers]

omit [Redaction.UnicodeTables] in
/-- What a call posts matches unless it starts a phase with blockers or repeats a snapshot that does not
match. -/
theorem matched_result {call : PhaseCall} {name : String} {now : Json.Number}
    {existing : Option PhaseState} {phase : PhaseState}
    (h : call.result name now existing = some phase) :
    Matched phase ↔ ∀ read, existing = some read →
      (call.isStart → read.status = .complete ∨ read.blockers = []) ∧
        (call.isUpdate → Matched read) := by
  rcases result_cases h with ⟨_, agentId, rfl, hstatus, hopen, base, rfl, hblockers, -, -⟩ |
    ⟨read, rfl, hcases⟩
  · have hmatched : Matched (base.assign agentId) ↔ base.blockers = [] := by
      constructor
      · intro hm
        by_contra hne
        have hblocked := hm.blocked.mpr (by rwa [blockers_assign])
        rw [hblocked] at hstatus
        cases hstatus
      · intro hnil
        refine ⟨?_, fun _ => by rw [blockers_assign, hnil]⟩
        rw [hstatus, blockers_assign, hnil]
        simp
    rw [hmatched, hblockers]
    cases existing with
    | none => simp
    | some read => simp [PhaseCall.isStart, PhaseCall.isUpdate, hopen read rfl]
  · rcases hcases with ⟨_, _, _, rfl, rfl⟩ | ⟨rfl, -, hnil, rfl⟩ | ⟨reason, rfl, rfl⟩ |
      ⟨reason, rfl, rfl⟩
    · simp [matched_iff, phaseUpdate, status_assign, blockers_assign, PhaseCall.isStart,
        PhaseCall.isUpdate]
    · refine iff_of_true ⟨?_, fun _ => hnil⟩ (by simp [PhaseCall.isStart, PhaseCall.isUpdate])
      simp [hnil]
    · refine iff_of_true ⟨?_, ?_⟩ (by simp [PhaseCall.isStart, PhaseCall.isUpdate])
      · simp only [phaseBlock, true_iff]
        split
        · rename_i hmem; exact List.ne_nil_of_mem hmem
        · simp
      · simp [phaseBlock]
    · refine iff_of_true ⟨?_, ?_⟩ (by simp [PhaseCall.isStart, PhaseCall.isUpdate])
      · by_cases hnil : read.blockers.erase reason = [] <;> simp [phaseUnblock, hnil]
      · by_cases hnil : read.blockers.erase reason = [] <;> simp [phaseUnblock, hnil]

theorem FoldedMatched.step_iff {name : String} {log : GossipLog τ} (h : FoldedMatched name log)
    {a : PhaseStep τ} :
    FoldedMatched name (phaseStep log a) ↔ StartsUnblocked name log a := by
  rcases getLatestPhaseState_step name log a with ⟨phase, hposted, hwrites, hafter⟩ |
    ⟨hsilent, hafter⟩
  · have hkept : FoldedMatched name (phaseStep log a) ↔ Matched phase := by
      unfold FoldedMatched
      rw [folded_eq_some.mpr hafter]
      constructor
      · intro h
        exact (matched_stored phase).mp (h _ rfl)
      · rintro h _ heq
        rw [← Option.some.inj heq]
        exact (matched_stored phase).mpr h
    obtain ⟨existing, hexisting, hresult⟩ := Option.bind_eq_some_iff.mp hposted
    rw [hkept, matched_result hresult, StartsUnblocked]
    simp only [hwrites, true_implies, folded_eq_some, hexisting, Option.some_inj]
    refine forall₂_congr fun read hread => and_congr_right' (imp_congr_right fun _ => ?_)
    refine ⟨fun hm _ => hm, fun hm => ?_⟩
    by_cases hname : a.phaseName = name
    · exact h read (folded_eq_some.mpr (by rw [← hname, hexisting, hread]))
    · exact hm hname
  · have hafter' : FoldedMatched name (phaseStep log a) := fun phase hphase =>
      h phase (by rwa [folded, hafter] at hphase)
    refine iff_of_true hafter' fun hwrites read hread => ?_
    rw [folded_eq_some] at hread
    constructor
    · intro hstart
      by_contra hboth
      rw [not_or] at hboth
      cases hcall : a.call with
      | start dependsOn agentId =>
          obtain ⟨phase, hposted⟩ : ∃ phase, a.posted log = some phase := by
            rw [PhaseStep.posted, hread, Option.bind_some]
            exact result_of_reopens (by simp [hcall, PhaseCall.reopens, hboth.1])
          exact hsilent phase hposted hwrites
      | update _ _ _ | complete | block _ | unblock _ => rw [hcall] at hstart; cases hstart
    · intro hupdate
      cases hcall : a.call with
      | update testsPassing totalTests agentId =>
          have hposted : a.posted log = some (phaseUpdate testsPassing totalTests agentId read) := by
            rw [PhaseStep.posted, hread, Option.bind_some, hcall]
            rfl
          exact absurd hwrites (hsilent _ hposted)
      | start _ _ | complete | block _ | unblock _ => rw [hcall] at hupdate; cases hupdate

/-- The folded state is blocked exactly when it has blockers, exactly in the runs that start no phase
with blockers and repeat no snapshot of another name that does not match. -/
theorem foldedMatched_iff {name : String} {log : GossipLog τ} (h : FoldedMatched name log)
    (steps : List (PhaseStep τ)) :
    Machine.Along phaseStep (fun log a => FoldedMatched name (phaseStep log a)) log steps ↔
      Machine.Along phaseStep (StartsUnblocked name) log steps := by
  constructor
  · intro hafter
    have hboth := hafter.strengthen (I := FoldedMatched name) (fun _ _ _ hc => hc) h
    exact hboth.mono fun _ _ hc => hc.1.step_iff.mp hc.2
  · intro hstarts
    have hboth := hstarts.strengthen (I := FoldedMatched name)
      (fun _ _ hm hc => hm.step_iff.mpr hc) h
    exact hboth.mono fun _ _ hc => hc.1.step_iff.mpr hc.2

end Runs

section SamplePhases

attribute [local instance] sampleTables

def samplePhase (call : PhaseCall) (uuid : String) : PhaseStep ℚ :=
  ⟨"p", call, .int 0, .granted, uuid, 0⟩

/-- A complete phase is blocked. -/
def blockedAfterComplete : List (PhaseStep ℚ) :=
  [samplePhase (.start none none) "u0", samplePhase .complete "u1", samplePhase (.block "r") "u2"]

theorem not_complete_final :
    ¬ ∀ pre mid post, blockedAfterComplete = pre ++ mid ++ post →
      statusOf "p" (Machine.run phaseStep [] pre) = some .complete →
        statusOf "p" (Machine.run phaseStep [] (pre ++ mid)) = some .complete := by
  intro hfinal
  have hblocked := hfinal [samplePhase (.start none none) "u0", samplePhase .complete "u1"]
    [samplePhase (.block "r") "u2"] [] rfl (by decide +kernel)
  revert hblocked
  decide +kernel

/-- A phase is blocked, unblocked and completed. -/
def blockedAndFreed : List (PhaseStep ℚ) :=
  [samplePhase (.start none (some "A")) "u0", samplePhase (.block "r") "u1",
    samplePhase (.unblock "r") "u2", samplePhase .complete "u3"]

theorem foldedMatched_blockedAndFreed :
    Machine.Along phaseStep (fun log a => FoldedMatched "p" (phaseStep log a)) []
      blockedAndFreed :=
  (foldedMatched_iff (fun _ h => by cases h) blockedAndFreed).mpr (by decide +kernel)

/-- A blocked phase is started again. -/
def startedWhileBlocked : List (PhaseStep ℚ) :=
  [samplePhase (.start none none) "u0", samplePhase (.block "r") "u1",
    samplePhase (.start none none) "u2"]

theorem not_foldedMatched_startedWhileBlocked :
    ¬ Machine.Along phaseStep (fun log a => FoldedMatched "p" (phaseStep log a)) []
      startedWhileBlocked := by
  rintro ⟨-, -, hstarted, -⟩
  revert hstarted
  unfold FoldedMatched
  decide +kernel

end SamplePhases

end Perpetua.Coordination

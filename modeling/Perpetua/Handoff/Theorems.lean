import Mathlib.Data.Fin.Basic
import Perpetua.Queue.Lemmas.Effects
import Perpetua.Handoff.Admission

/-!
# One admission a job

Calls with one packet admit its job once and agree on the queue task, in runs where no admission of
the job commits between a call's look at the log and its own commit and where redaction leaves the
two ids alone.
-/

namespace Perpetua.Handoff

open GossipBus Queue

variable {τ ι : Type}

/-! ## The property -/

/-- After the first `base` events at most one enqueue and one admission came, and all calls that have
returned agree. -/
structure AdmittedOnce (base : ℕ) (s : System τ ι) : Prop where
  enqueues : (s.log.drop base).countP isEnqueue ≤ 1
  admissions : (s.log.drop base).countP isAdmission ≤ 1
  agree : ∀ i j x y, s.phase i = .finished (.returned x) → s.phase j = .finished (.returned y) → x = y

theorem queueTaskId_auditPayload (c : Call) (queueTaskId : String) :
    Entries.get? (auditPayload c queueTaskId) "queue_task_id" = some (.str queueTaskId) := by
  rw [auditPayload]
  cases c.packet.monitorability <;> rfl

theorem isAdmission_of {jobId : String} {row : GossipRow τ} (h : isAdmissionOf jobId row) :
    isAdmission row := by
  simp only [isAdmissionOf, isAdmission, Bool.and_eq_true] at h ⊢
  exact h.1

theorem not_isEnqueue_of {row : GossipRow τ} (h : isAdmission row) : isEnqueue row = false := by
  simp only [isAdmission, isEnqueue, Bool.and_eq_true, decide_eq_true_eq] at h ⊢
  simp [h.2]

section Admissions

variable [Redaction.UnicodeTables]

/-- An admission commits only if no other of its job has since the call looked for one, and on a job id
and a queue task id that redaction leaves alone. -/
def AdmitsAlone (calls : ι → Call) (s : System τ ι) : Action τ ι → Prop
  | .commit i env =>
      match s.phase i with
      | .unadmitted readAt =>
          (commitAdmission (calls i) env s.log).isSome →
            Redaction.redactText (calls i).packet.jobId = (calls i).packet.jobId ∧
            Redaction.redactText (taskIdOf (calls i).args env.suffix) =
              taskIdOf (calls i).args env.suffix ∧
            (∀ old ∈ s.log, old.eventUuid ≠ env.auditUuid) ∧ env.enqueueUuid ≠ env.auditUuid ∧
            ∀ row ∈ s.log.drop readAt, isAdmissionOf (calls i).packet.jobId row = false
      | _ => True
  | _ => True

instance (calls : ι → Call) (s : System τ ι) (action : Action τ ι) :
    Decidable (AdmitsAlone calls s action) := by
  cases action with
  | commit i env => unfold AdmitsAlone; dsimp only; split <;> infer_instance
  | _ => unfold AdmitsAlone; infer_instance

/-! ## The two events -/

theorem auditPayload_admission {c : Call} (queueTaskId : String)
    (hjob : Redaction.redactText c.packet.jobId = c.packet.jobId) (uuid : String) (now : τ) :
    isAdmissionOf c.packet.jobId
      ⟨uuid, now, "heartbeat", durablePayload (auditPayload c queueTaskId)⟩ := by
  have hjobId : field? (durablePayload (auditPayload c queueTaskId)) "job_id" =
      some c.packet.jobId := by
    rw [field?_durable (s := c.packet.jobId) (by decide) rfl, hjob]
  have hkind := field?_durable_const (p := auditPayload c queueTaskId) (k := "kind")
    (s := "handoff_admitted") (by decide) rfl (by simp) (by simp)
  simp [isAdmissionOf, hjobId, hkind]

theorem queueTaskId_stored {c : Call} {queueTaskId : String}
    (h : Redaction.redactText queueTaskId = queueTaskId) :
    field? (durablePayload (auditPayload c queueTaskId)) "queue_task_id" = some queueTaskId := by
  rw [field?_durable (by decide) (queueTaskId_auditPayload c queueTaskId), h]

/-- What a committed admission adds to the log. -/
theorem commitAdmission_eq_some {c : Call} {env : AdmitEnv τ} {log log' : GossipLog τ} {queueTaskId : String}
    (h : commitAdmission c env log = some (log', queueTaskId))
    (hfresh : ∀ old ∈ log, old.eventUuid ≠ env.auditUuid) (hne : env.enqueueUuid ≠ env.auditUuid) :
    queueTaskId = taskIdOf c.args env.suffix ∧ ∃ added, (added = [] ∨
        ∃ row, added = [row] ∧ isEnqueue row ∧ isAdmission row = false) ∧
      log' = log ++ (added ++ [⟨env.auditUuid, env.now, "heartbeat",
        durablePayload (auditPayload c queueTaskId)⟩]) := by
  unfold commitAdmission at h
  split at h
  · obtain ⟨⟨log₁, x⟩, hadd, heq⟩ := Option.map_eq_some_iff.mp h
    obtain ⟨level, -, hlevel⟩ := Option.map_eq_some_iff.mp hadd
    obtain ⟨hlog₁, rfl⟩ := Prod.mk.inj hlevel
    obtain ⟨hlog', rfl⟩ := Prod.mk.inj heq
    obtain ⟨added, hadded, hinsert⟩ := insertEvent_inserts env.enqueueUuid env.now "heartbeat"
      (enqueuePayload c.args (taskIdOf c.args env.suffix)
        (upperName (PyText.strip c.args.priority)) level) log
    rw [hinsert] at hlog₁
    have hnew : ∀ old ∈ log₁, old.eventUuid ≠ env.auditUuid := by
      intro old hold
      rw [← hlog₁] at hold
      rcases List.mem_append.mp hold with hold | hold
      · exact hfresh old hold
      · rcases hadded with rfl | ⟨rfl, -⟩
        · rw [List.mem_singleton.mp hold]; exact hne
        · cases hold
    refine ⟨rfl, added, ?_, ?_⟩
    · rcases hadded with rfl | ⟨rfl, -⟩
      · have hkind := field?_durable_const (k := "kind") (s := "task_enqueue")
          (p := enqueuePayload c.args (taskIdOf c.args env.suffix)
            (upperName (PyText.strip c.args.priority)) level) (by decide) rfl (by simp) (by simp)
        exact Or.inr ⟨_, rfl, by simp [isEnqueue, hkind], by simp [isAdmission, hkind]⟩
      · exact Or.inl rfl
    · rw [← hlog', insertEvent, if_neg (by simpa using hnew), ← hlog₁, List.append_assoc]
  · cases h

/-! ## Runs -/

variable [DecidableEq ι] {calls : ι → Call} {packet : HandoffPacket} {base : ℕ}

/-- The admissions after the first `base` events are those of the job, of which there is at most one,
with at most one enqueue; a call that has found none looked at a log without one, and a call that has
returned names the task of one. -/
structure Once (packet : HandoffPacket) (base : ℕ) (s : System τ ι) : Prop where
  le_length : base ≤ s.log.length
  enqueues : (s.log.drop base).countP isEnqueue ≤ (s.log.filter (isAdmissionOf packet.jobId)).length
  admissions :
    (s.log.drop base).countP isAdmission = (s.log.filter (isAdmissionOf packet.jobId)).length
  one : (s.log.filter (isAdmissionOf packet.jobId)).length ≤ 1
  looked : ∀ i readAt, s.phase i = .unadmitted readAt → readAt ≤ s.log.length ∧
    ∀ row ∈ s.log.take readAt, isAdmissionOf packet.jobId row = false
  returned : ∀ i x, s.phase i = .finished (.returned x) →
    ∃ row ∈ s.log.filter (isAdmissionOf packet.jobId), field? row.payload "queue_task_id" = some x

omit [Redaction.UnicodeTables] [DecidableEq ι] in
theorem Once.admittedOnce {s : System τ ι} (h : Once packet base s) : AdmittedOnce base s := by
  refine ⟨h.enqueues.trans h.one, h.admissions ▸ h.one, fun i j x y hx hy => ?_⟩
  obtain ⟨row, hrow, hx⟩ := h.returned i x hx
  obtain ⟨row', hrow', hy⟩ := h.returned j y hy
  obtain ⟨only, honly⟩ := List.length_eq_one_iff.mp
    (le_antisymm h.one (List.length_pos_of_mem hrow))
  rw [honly, List.mem_singleton] at hrow hrow'
  rw [hrow] at hx
  rw [hrow', hx] at hy
  exact Option.some.inj hy

omit [Redaction.UnicodeTables] in
theorem Once.move {s : System τ ι} (h : Once packet base s) (i : ι) {phase : Phase}
    (hlooked : ∀ readAt, phase = .unadmitted readAt → readAt ≤ s.log.length ∧
      ∀ row ∈ s.log.take readAt, isAdmissionOf packet.jobId row = false)
    (hreturned : ∀ x, phase = .finished (.returned x) →
      ∃ row ∈ s.log.filter (isAdmissionOf packet.jobId),
        field? row.payload "queue_task_id" = some x) : Once packet base (s.move i phase) := by
  refine ⟨h.le_length, h.enqueues, h.admissions, h.one, fun j readAt hj => ?_, fun j x hj => ?_⟩
  · simp only [System.move, Function.update_apply] at hj
    split at hj
    · exact hlooked readAt hj
    · exact h.looked j readAt hj
  · simp only [System.move, Function.update_apply] at hj
    split at hj
    · exact hreturned x hj
    · exact h.returned j x hj

omit [Redaction.UnicodeTables] [DecidableEq ι] in
/-- Rows that are added after a look leave the looks and the returned ids as they are. -/
theorem Once.append {s : System τ ι} (h : Once packet base s) (added : GossipLog τ)
    (henqueues : ((s.log ++ added).drop base).countP isEnqueue ≤
      ((s.log ++ added).filter (isAdmissionOf packet.jobId)).length)
    (hadmissions : ((s.log ++ added).drop base).countP isAdmission =
      ((s.log ++ added).filter (isAdmissionOf packet.jobId)).length)
    (hone : ((s.log ++ added).filter (isAdmissionOf packet.jobId)).length ≤ 1) :
    Once packet base { s with log := s.log ++ added } := by
  refine ⟨?_, henqueues, hadmissions, hone, fun i readAt hi => ?_, fun i x hi => ?_⟩
  · have := h.le_length
    simp only [List.length_append]
    omega
  · obtain ⟨hle, hnone⟩ := h.looked i readAt hi
    refine ⟨by simp only [List.length_append]; omega, ?_⟩
    rwa [List.take_append_of_le_length hle]
  · obtain ⟨row, hrow, hx⟩ := h.returned i x hi
    rw [List.filter_append]
    exact ⟨row, List.mem_append_left _ hrow, hx⟩

omit [Redaction.UnicodeTables] in
theorem Once.check {s : System τ ι} (h : Once packet base s) {i : ι}
    (hpacket : (calls i).packet = packet) : Once packet base (stepCheck calls s i) := by
  unfold stepCheck
  split
  · split
    · exact h.move i (by simp) (by simp)
    · rw [hpacket]
      split
      · rename_i hnone
        refine h.move i (fun readAt hphase => ?_) nofun
        cases hphase
        refine ⟨le_rfl, fun row hrow => ?_⟩
        rw [List.take_length] at hrow
        simpa using List.find?_eq_none.mp (Option.map_eq_none_iff.mp hnone) row hrow
      · rename_i existing hsome
        obtain ⟨row, hfind, rfl⟩ := Option.map_eq_some_iff.mp hsome
        split
        · rename_i x hx
          refine h.move i nofun fun y hphase => ?_
          cases hphase
          exact ⟨row, List.mem_filter.mpr ⟨List.mem_of_find?_eq_some hfind,
            List.find?_some hfind⟩, hx⟩
        · exact h.move i (by simp) (by simp)
  · exact h

/-- An admission that commits is the first of its job. -/
theorem Once.commit {s : System τ ι} (h : Once packet base s) {i : ι} {env : AdmitEnv τ}
    (hpacket : (calls i).packet = packet) (halone : AdmitsAlone calls s (.commit i env)) :
    Once packet base (stepCommit calls s i env) := by
  unfold stepCommit
  split
  · rename_i readAt hphase
    split
    · rename_i log x hcommit
      simp only [AdmitsAlone, hphase, hpacket] at halone
      obtain ⟨hjob, htask, hfresh, hne, hsince⟩ := halone (by rw [hcommit]; rfl)
      obtain ⟨rfl, added, hadded, rfl⟩ := commitAdmission_eq_some hcommit hfresh hne
      obtain ⟨-, hread⟩ := h.looked i readAt hphase
      have hnone : s.log.filter (isAdmissionOf packet.jobId) = [] := by
        refine List.filter_eq_nil_iff.mpr fun row hrow => ?_
        rw [← List.take_append_drop readAt s.log] at hrow
        rcases List.mem_append.mp hrow with hrow | hrow
        · simp [hread row hrow]
        · simp [hsince row hrow]
      have haudit := auditPayload_admission (c := calls i) (taskIdOf (calls i).args env.suffix)
        (by rw [hpacket]; exact hjob) env.auditUuid env.now
      rw [hpacket] at haudit
      have hadmission := isAdmission_of haudit
      have henqueues := h.enqueues
      have hadmissions := h.admissions
      rw [hnone, List.length_nil] at henqueues hadmissions
      -- the audit event is the one admission of the job, and the enqueue before it is no admission
      have hkept : added.filter (isAdmissionOf packet.jobId) = [] ∧ added.countP isEnqueue ≤ 1 ∧
          added.countP isAdmission = 0 := by
        rcases hadded with rfl | ⟨row, rfl, henqueue, hnot⟩
        · simp
        · have : isAdmissionOf packet.jobId row = false := by
            by_contra hof
            rw [isAdmission_of (Bool.not_eq_false _ ▸ hof)] at hnot
            cases hnot
          simp [this, henqueue, hnot]
      obtain ⟨hfilter, hcountEnqueue, hcountAdmission⟩ := hkept
      refine (h.append _ ?_ ?_ ?_).move i (by simp) fun x hx => ?_
      · rw [List.drop_append_of_le_length h.le_length, List.countP_append, List.countP_append,
          List.filter_append, List.filter_append, hnone, hfilter]
        simp [haudit, not_isEnqueue_of hadmission]
        omega
      · rw [List.drop_append_of_le_length h.le_length, List.countP_append, List.countP_append,
          List.filter_append, List.filter_append, hnone, hfilter, hcountAdmission, hadmissions]
        simp [haudit, hadmission]
      · rw [List.filter_append, List.filter_append, hnone, hfilter]
        simp [haudit]
      · cases hx
        exact ⟨_, List.mem_filter.mpr ⟨by simp, haudit⟩, queueTaskId_stored htask⟩
    · exact h.move i (by simp) (by simp)
  · exact h

theorem Once.step {s : System τ ι} (h : Once packet base s)
    (hpacket : ∀ i, (calls i).packet = packet) {action : Action τ ι}
    (halone : AdmitsAlone calls s action) : Once packet base (step calls s action) := by
  cases action with
  | check i => exact h.check (hpacket i)
  | commit i env => exact h.commit (hpacket i) halone
  | other row =>
      rw [Handoff.step]
      split
      · exact h
      · rename_i hother
        simp only [Bool.or_eq_true, not_or, Bool.not_eq_true] at hother
        have hnot : isAdmissionOf packet.jobId row = false := by
          by_contra hof
          rw [isAdmission_of (Bool.not_eq_false _ ▸ hof)] at hother
          cases hother.2
        refine h.append [row] ?_ ?_ ?_
        · rw [List.drop_append_of_le_length h.le_length, List.countP_append, List.filter_append]
          simpa [hother, hnot] using h.enqueues
        · rw [List.drop_append_of_le_length h.le_length, List.countP_append, List.filter_append]
          simpa [hother, hnot] using h.admissions
        · rw [List.filter_append]
          simpa [hnot] using h.one

/-- From any log without an admission of the job, calls with its packet admit it once, in every run
whose admissions commit alone. -/
theorem admittedOnce_run {s : System τ ι} (hpacket : ∀ i, (calls i).packet = packet)
    (hstart : ∀ i, s.phase i = .start)
    (hnone : ∀ row ∈ s.log, isAdmissionOf packet.jobId row = false) {steps : List (Action τ ι)}
    (h : Machine.Along (step calls) (AdmitsAlone calls) s steps) :
    AdmittedOnce s.log.length (Machine.run (step calls) s steps) := by
  have hempty : s.log.filter (isAdmissionOf packet.jobId) = [] :=
    List.filter_eq_nil_iff.mpr fun row hrow => by simp [hnone row hrow]
  have hinit : Once packet s.log.length s :=
    ⟨le_rfl, by simp, by simp [hempty], by simp [hempty],
      fun i _ hi => absurd ((hstart i).symm.trans hi) nofun,
      fun i _ hi => absurd ((hstart i).symm.trans hi) nofun⟩
  exact (h.invariant (fun _ _ hs halone => hs.step hpacket halone) hinit).admittedOnce

end Admissions

section SampleRuns

local instance sampleTables : Redaction.UnicodeTables := ⟨fun _ => false, fun _ => false⟩

def samplePacket : HandoffPacket :=
  { sessionId := "s", jobId := "j1", taskId := "t", assignedAgentId := "A", role := "coder"
    branch := "main", startingHead := "abcdef0", jobId_ne := by decide, branch_text := by decide
    agent_text := by decide, head_sha := by decide }

/-- Two calls with the packet. -/
def sampleCalls : Fin 2 → Call := fun _ =>
  { packet := samplePacket, taskName := "n", phase := "p", priority := "high", notes := "" }

def admitSample (i : Fin 2) (suffix enqueueUuid auditUuid : String) : Action ℕ (Fin 2) :=
  .commit i ⟨.granted, suffix, enqueueUuid, auditUuid, 0⟩

theorem admittedOnce_sample :
    AdmittedOnce 0 (Machine.run (step sampleCalls) ({} : System ℕ (Fin 2))
      [.check 0, admitSample 0 "0" "u0" "u1", .check 1]) := by
  have hpacket : ∀ i, (sampleCalls i).packet = samplePacket := fun _ => rfl
  exact admittedOnce_run (s := ({} : System ℕ (Fin 2))) hpacket (fun _ => rfl)
    (fun _ hrow => absurd hrow List.not_mem_nil) (by decide +kernel)

/-- Both calls look before either commits. -/
theorem not_admittedOnce_race :
    ¬ AdmittedOnce 0 (Machine.run (step sampleCalls) ({} : System ℕ (Fin 2))
      [.check 0, .check 1, admitSample 0 "0" "u0" "u1", admitSample 1 "1" "u2" "u3"]) := by
  intro h
  have henqueues := h.enqueues
  revert henqueues
  decide +kernel

end SampleRuns

end Perpetua.Handoff

import Perpetua.Supervisor.Pool
import Perpetua.Supervisor.TerminalTheorems

/-!
# Slots of the supervisor

A worker releases its slot when it ends, unless the append of RUNNING or the creation of the job's
directory raises: both come before the `try` whose `finally` releases it, and the callback looks at
cancelled tasks only.
-/

namespace Perpetua.Supervisor

variable {jobId : String}

/-! ## One job -/

/-- The folded log shows no status of the job that is not terminal. -/
def Ended (jobId : String) (log : List Event) : Prop :=
  ∀ e, latest jobId log = some e → e.status.terminal = true

theorem Ended.append {log : List Event} (h : Ended jobId log) {t : JobStatus}
    (ht : t.terminal = true) (a : Bool) (w : Write) :
    Ended jobId (appendEvent log ⟨jobId, t, a⟩ w) := by
  unfold appendEvent
  split
  · exact h
  · intro e he
    rw [latest_concat] at he
    split at he
    · cases he
      exact ht
    · exact h e he

theorem latest_empty (log : List Event) : latest "" log = none := by
  induction log using List.reverseRecOn with
  | nil => rfl
  | append_singleton log e ih =>
      rw [latest_concat, if_neg fun h => h.2 rfl]
      exact ih

theorem ended_append {log : List Event} {t : JobStatus} (ht : t.terminal = true) (a : Bool) {w : Write}
    (hw : w.raises = false) : Ended jobId (appendEvent log ⟨jobId, t, a⟩ w) := by
  have hstored : w ≠ .lost := by
    rintro rfl
    cases hw
  intro e he
  rw [appendEvent, if_neg hstored, latest_concat] at he
  split at he
  · cases he
    exact ht
  · rename_i hempty
    obtain rfl : jobId = "" := by_contra fun hne => hempty ⟨rfl, hne⟩
    rw [latest_empty] at he
    cases he

theorem ended_of_isCancelled {s : System} (h : s.isCancelled jobId = true) : Ended jobId s.log := by
  intro e he
  rw [System.isCancelled, he] at h
  have hcancelled : e.status = .cancelled := of_decide_eq_true h
  rw [hcancelled]
  rfl

/-- The worker releases its slot when it ends, and by then the log shows how, or could not. -/
structure Released (jobId : String) (unreported : Prop) (s : System) : Prop where
  slot : ∀ c, s.worker = .done c → s.active = false ∨ c = true ∧ s.callbackPending = true
  recording : ∀ b, s.worker = .recording b → Ended jobId s.log
  ended : ∀ c, s.worker = .done c →
    Ended jobId s.log ∨ unreported ∨ c = true ∧ s.callbackPending = true

theorem released_of_live {unreported : Prop} {s : System}
    (h : s.worker = .notStarted ∨ s.worker = .dispatching) : Released jobId unreported s := by
  constructor
  · intro c hc
    rcases h with h | h
    all_goals
      rw [h] at hc
      cases hc
  · intro b hb
    rcases h with h | h
    all_goals
      rw [h] at hb
      cases hb
  · intro c hc
    rcases h with h | h
    all_goals
      rw [h] at hc
      cases hc

theorem released_of_recording {unreported : Prop} {s : System} {b : Bool}
    (h : s.worker = .recording b) (hended : Ended jobId s.log) : Released jobId unreported s := by
  constructor
  · intro c hc
    rw [h] at hc
    cases hc
  · exact fun _ _ => hended
  · exact fun _ _ => Or.inl hended

theorem released_of_inactive {unreported : Prop} {s : System} (h : s.active = false)
    (hrecording : ∀ b, s.worker ≠ .recording b) (hended : Ended jobId s.log ∨ unreported) :
    Released jobId unreported s where
  slot _ _ := Or.inl h
  recording b hb := absurd hb (hrecording b)
  ended _ _ := hended.imp_right Or.inl

/-- The other fields do not matter, nor do further terminal events. -/
theorem Released.congr {unreported : Prop} {s s' : System} (h : Released jobId unreported s)
    (hworker : s'.worker = s.worker) (hactive : s.active = false → s'.active = false)
    (hpending : s'.callbackPending = s.callbackPending)
    (hlog : Ended jobId s.log → Ended jobId s'.log) : Released jobId unreported s' where
  slot c hc := by
    rw [hpending]
    exact (h.slot c (hworker ▸ hc)).imp_left hactive
  recording b hb := hlog (h.recording b (hworker ▸ hb))
  ended c hc := by
    rw [hpending]
    exact (h.ended c (hworker ▸ hc)).imp_left hlog

theorem Released.mono {u u' : Prop} {s : System} (h : Released jobId u s) (hu : u → u') :
    Released jobId u' s :=
  ⟨h.slot, h.recording, fun c hc => (h.ended c hc).imp_right (Or.imp_left hu)⟩

theorem ensureContainmentTask_frame (jobId : String) (s : System) :
    (s.ensureContainmentTask jobId).log = s.log ∧ (s.ensureContainmentTask jobId).worker = s.worker ∧
      (s.ensureContainmentTask jobId).active = s.active ∧
      (s.ensureContainmentTask jobId).callbackPending = s.callbackPending := by
  unfold System.ensureContainmentTask
  split_ifs
  all_goals exact ⟨rfl, rfl, rfl, rfl⟩

theorem persistCancelled_frame (jobId : String) (s : System) (w : Write) :
    (s.persistCancelled jobId w).worker = s.worker ∧ (s.persistCancelled jobId w).active = s.active ∧
      (s.persistCancelled jobId w).callbackPending = s.callbackPending ∧
      (Ended jobId (s.persistCancelled jobId w).log ∨ s.isCancelled jobId = false ∧ w.raises = true) := by
  unfold System.persistCancelled
  split
  · rename_i hcancelled
    obtain ⟨hlog, hworker, hactive, hpending⟩ := ensureContainmentTask_frame jobId s
    exact ⟨hworker, hactive, hpending, Or.inl (hlog ▸ ended_of_isCancelled hcancelled)⟩
  · rename_i hcancelled
    dsimp only
    split
    · rename_i hraises
      exact ⟨rfl, rfl, rfl, Or.inr ⟨Bool.eq_false_iff.mpr hcancelled, hraises⟩⟩
    · rename_i hraises
      obtain ⟨hlog, hworker, hactive, hpending⟩ := ensureContainmentTask_frame jobId
        { s with log := appendEvent s.log ⟨jobId, .cancelled, false⟩ w }
      refine ⟨hworker, hactive, hpending, Or.inl ?_⟩
      rw [hlog]
      exact ended_append rfl false (Bool.eq_false_iff.mpr hraises)

/-- The append of RUNNING raises, or the creation of the directory. -/
def StartRaises (s : System) (l : Step) (mkdirRaises : Bool) : Prop :=
  s.worker = .notStarted ∧ s.cancelRequested = false ∧
    ∃ w, l = .start w ∧ (w.raises = true ∨ mkdirRaises = true)

/-- The jobs file can be read in the step of a job. -/
def Readable : Step → Prop
  | .cancelWithTerminalState readable | .confirm readable _ | .onCancelledWorkerDone readable _ =>
      readable = true
  | _ => True

theorem Released.start {u : Prop} {s : System} (h : Released jobId u s) {w : Write} {mkdirRaises : Bool}
    (hstart : ¬StartRaises s (.start w) mkdirRaises) :
    Released jobId u (s.startInDirectory jobId w mkdirRaises) := by
  unfold System.startInDirectory
  by_cases hworker : s.worker = .notStarted
  · cases hrequested : s.cancelRequested with
    | true =>
        -- cancelled before its coroutine began
        have hnext : s.start jobId w = s.finish true := by
          rw [System.start, if_neg (not_not.mpr hworker), if_pos hrequested]
        dsimp only
        rw [hnext, if_neg (by simp [System.finish])]
        exact ⟨fun c hc => Or.inr ⟨(Worker.done.inj hc).symm, rfl⟩, fun b hb => (by cases hb),
          fun c hc => Or.inr (Or.inr ⟨(Worker.done.inj hc).symm, rfl⟩)⟩
    | false =>
        have hgood : w.raises = false ∧ mkdirRaises = false := by
          simp only [StartRaises, hworker, hrequested, true_and, Step.start.injEq, exists_eq_left',
            not_or, Bool.not_eq_true] at hstart
          exact hstart
        have hnext : (s.start jobId w).worker = .dispatching := by
          rw [System.start, if_neg (not_not.mpr hworker), hrequested]
          simp [hgood.1]
        dsimp only
        rw [if_neg (by simp [hgood.2])]
        exact released_of_live (Or.inr hnext)
  · have hnext : s.start jobId w = s := by rw [System.start, if_pos hworker]
    dsimp only
    rw [hnext, if_neg fun hm => hworker hm.2.1]
    exact h

theorem released_fail {s : System} (w : Write) :
    Released jobId (w.raises = true) (s.fail jobId w) := by
  rw [System.fail]
  dsimp only
  split
  · rename_i hraises
    exact released_of_inactive rfl (fun b hb => by cases hb) (Or.inr hraises)
  · rename_i hraises
    exact released_of_recording rfl (ended_append rfl false (Bool.eq_false_iff.mpr hraises))

theorem released_abort {s : System} (w : Write) :
    Released jobId (w.raises = true) (s.abort jobId w) := by
  apply released_of_inactive rfl (fun b hb => by cases hb)
  cases hraises : w.raises with
  | true => exact Or.inr rfl
  | false => exact Or.inl (ended_append rfl false hraises)

theorem Released.dispatched {u : Prop} {s : System} (h : Released jobId u s) (o : Dispatched)
    (w w' : Write) : Released jobId (u ∨ terminalAppendRaises jobId s (.dispatched o w w') = true)
      (s.dispatched jobId o w w') := by
  by_cases hworker : s.worker = .dispatching
  · rw [System.dispatched.eq_def, if_neg (not_not.mpr hworker)]
    cases o with
    | cancelled =>
        exact (released_abort w).mono fun hw => Or.inr (by simp [terminalAppendRaises, hworker, hw])
    | raised policy =>
        exact (released_fail w).mono fun hw => Or.inr (by simp [terminalAppendRaises, hworker, hw])
    | returned =>
        dsimp only
        split
        · rename_i hraises
          exact (released_fail w').mono fun hw => Or.inr (by
            simp [terminalAppendRaises, hworker, hraises, hw])
        · rename_i hraises
          exact released_of_recording rfl (ended_append rfl false (Bool.eq_false_iff.mpr hraises))
  · rw [System.dispatched.eq_def, if_pos hworker]
    exact h.mono Or.inl

theorem Released.recorded {u : Prop} {s : System} (h : Released jobId u s) (cancelled : Bool)
    (w : Write) : Released jobId u (s.recorded jobId cancelled w) := by
  rw [System.recorded]
  split
  · rename_i succeeded hworker
    have hended := h.recording succeeded hworker
    split_ifs
    · exact released_of_inactive rfl (fun b hb => by cases hb) (Or.inl hended)
    · exact released_of_inactive rfl (fun b hb => by cases hb) (Or.inl (hended.append rfl false w))
    · exact released_of_inactive rfl (fun b hb => by cases hb) (Or.inl hended)
  · exact h

theorem Released.cancel {u : Prop} {s : System} (h : Released jobId u s) : Released jobId u s.cancel := by
  rw [System.cancel]
  split
  · exact h
  · split_ifs
    · exact h.congr rfl id rfl id
    · exact h

theorem Released.ensureContainmentTask {u : Prop} {s : System} (h : Released jobId u s) :
    Released jobId u (s.ensureContainmentTask jobId) := by
  obtain ⟨hlog, hworker, hactive, hpending⟩ := ensureContainmentTask_frame jobId s
  exact h.congr hworker (fun ha => hactive.trans ha) hpending fun he => hlog ▸ he

theorem Released.cancelWithTerminalState {u : Prop} {s : System} (h : Released jobId u s)
    (readable : Bool) : Released jobId u (s.cancelWithTerminalState jobId readable) := by
  have hfinished : Released jobId u (if readable && s.isCancelled jobId && s.child then
      s.ensureContainmentTask jobId else s) := by
    split
    · exact h.ensureContainmentTask
    · exact h
  unfold System.cancelWithTerminalState
  split
  · exact h
  · dsimp only
    split
    · exact hfinished
    · split
      · exact h.congr rfl id rfl id
      · exact hfinished

/-- What persists CANCELLED for a job whose task was cancelled and whose slot is free. -/
theorem released_persistCancelled {u : Prop} {s : System} (hworker : s.worker = .done true)
    (hactive : s.active = false) (w : Write) (hu : s.isCancelled jobId = false → w.raises = true → u) :
    Released jobId u (s.persistCancelled jobId w) := by
  obtain ⟨hworker', hactive', -, hended⟩ := persistCancelled_frame jobId s w
  apply released_of_inactive (hactive'.trans hactive)
  · intro b hb
    rw [hworker', hworker] at hb
    cases hb
  · exact hended.imp_right fun hfailed => hu hfailed.1 hfailed.2

theorem Released.onCancelledWorkerDone {u : Prop} {s : System} (h : Released jobId u s) (w : Write) :
    Released jobId (u ∨ terminalAppendRaises jobId s (.onCancelledWorkerDone true w) = true)
      (s.onCancelledWorkerDone jobId true w) := by
  unfold System.onCancelledWorkerDone
  split
  · exact h.mono Or.inl
  · rename_i hpending
    by_cases hworker : s.worker = .done true
    · dsimp only
      rw [if_neg (not_not.mpr hworker), if_pos rfl]
      apply released_persistCancelled
      · exact hworker
      · rfl
      · intro hcancelled hraises
        have hcancelled : s.isCancelled jobId = false := hcancelled
        right
        simpa [terminalAppendRaises, hworker, hcancelled, hraises] using hpending
    · dsimp only
      rw [if_pos hworker]
      refine ⟨fun c hc => ?_, h.recording, fun c hc => ?_⟩
      · have hne : c ≠ true := by
          rintro rfl
          exact hworker hc
        exact (h.slot c hc).imp_right fun hp => absurd hp.1 hne
      · have hne : c ≠ true := by
          rintro rfl
          exact hworker hc
        rcases h.ended c hc with hended | hu | hp
        · exact Or.inl hended
        · exact Or.inr (Or.inl (Or.inl hu))
        · exact absurd hp.1 hne

theorem Released.confirm {u : Prop} {s : System} (h : Released jobId u s) (w : Write) :
    Released jobId (u ∨ terminalAppendRaises jobId s (.confirm true w) = true)
      (s.confirm jobId true w) := by
  unfold System.confirm
  split
  · exact h.mono Or.inl
  · rename_i hconfirming
    dsimp only
    rw [if_neg (by simp)]
    split
    · rename_i hworker
      apply released_persistCancelled
      · exact hworker
      · rfl
      · intro hcancelled hraises
        have hcancelled : s.isCancelled jobId = false := hcancelled
        have hworker : s.worker = .done true := hworker
        right
        simp [terminalAppendRaises, hworker, hcancelled, hraises, hconfirming]
    · have hlower : Released jobId (u ∨ terminalAppendRaises jobId s (.confirm true w) = true)
          { s with confirming := s.confirming - 1 } :=
        Released.mono (h.congr rfl id rfl id) Or.inl
      split
      · exact hlower.ensureContainmentTask
      · exact hlower

theorem Released.contain {u : Prop} {s : System} (h : Released jobId u s) (outcome : Option Write) :
    Released jobId u (s.contain jobId outcome) := by
  unfold System.contain
  cases hcleanup : s.cleanup with
  | none => exact h
  | some attempts =>
      cases outcome with
      | none =>
          simp only [reduceCtorEq, if_false]
          split
          · exact h.congr rfl id rfl id
          · exact h.congr rfl id rfl id
      | some w =>
          have hlog : Ended jobId s.log → Ended jobId (appendEvent s.log ⟨jobId, .cancelled, true⟩ w) :=
            fun hended => hended.append rfl true w
          simp only
          split
          · exact h.congr rfl id rfl hlog
          · split
            · exact h.congr rfl id rfl hlog
            · exact h.congr rfl id rfl hlog

theorem Released.step {u : Prop} {s : System} (h : Released jobId u s) {l : Step} {mkdirRaises : Bool}
    (hstart : ¬StartRaises s l mkdirRaises) (hreadable : Readable l) :
    Released jobId (u ∨ terminalAppendRaises jobId s l = true) (workStep jobId s l mkdirRaises) := by
  cases l with
  | other e => exact h.mono Or.inl
  | start w => exact (h.start hstart).mono Or.inl
  | dispatched o w w' => exact h.dispatched o w w'
  | recorded cancelled w => exact (h.recorded cancelled w).mono Or.inl
  | cancel => exact h.cancel.mono Or.inl
  | cancelWithTerminalState readable => exact (h.cancelWithTerminalState readable).mono Or.inl
  | confirm readable w =>
      obtain rfl : readable = true := hreadable
      exact h.confirm w
  | onCancelledWorkerDone readable w =>
      obtain rfl : readable = true := hreadable
      exact h.onCancelledWorkerDone w
  | contain outcome => exact (h.contain outcome).mono Or.inl
  | noteChild => exact Released.mono (h.congr rfl id rfl id) Or.inl
  | clearChild => exact Released.mono (h.congr rfl id rfl id) Or.inl

/-! ## The log of the other jobs -/

/-- A step of a job appends events of this job only, and takes no slot. -/
structure Frame (jobId : String) (s s' : System) : Prop where
  log : ∃ events, s'.log = s.log ++ events ∧ ∀ e ∈ events, e.jobId = jobId
  active : s'.active = true → s.active = true

theorem Frame.trans {s t v : System} (h : Frame jobId s t) (h' : Frame jobId t v) : Frame jobId s v := by
  obtain ⟨events, hlog, hevents⟩ := h.log
  obtain ⟨events', hlog', hevents'⟩ := h'.log
  refine ⟨⟨events ++ events', ?_, List.forall_mem_append.mpr ⟨hevents, hevents'⟩⟩, ?_⟩
  · rw [hlog', hlog, List.append_assoc]
  · exact fun ha => h.active (h'.active ha)

theorem frame_of_eq {s s' : System} (hlog : s'.log = s.log) (hactive : s'.active = true → s.active = true) :
    Frame jobId s s' :=
  ⟨⟨[], by rw [hlog, List.append_nil], by simp⟩, hactive⟩

theorem frame_append {s s' : System} {t : JobStatus} {a : Bool} {w : Write}
    (hlog : s'.log = appendEvent s.log ⟨jobId, t, a⟩ w) (hactive : s'.active = true → s.active = true) :
    Frame jobId s s' := by
  refine ⟨?_, hactive⟩
  rw [hlog, appendEvent]
  split
  · exact ⟨[], (List.append_nil _).symm, by simp⟩
  · exact ⟨[⟨jobId, t, a⟩], rfl, by simp⟩

theorem frame_start (s : System) (w : Write) : Frame jobId s (s.start jobId w) := by
  unfold System.start
  split_ifs
  · exact frame_of_eq rfl id
  · exact frame_of_eq rfl id
  · exact frame_append rfl id
  · exact frame_append rfl id

theorem frame_fail (s : System) (w : Write) : Frame jobId s (s.fail jobId w) := by
  unfold System.fail
  dsimp only
  split
  · exact frame_append rfl fun ha => by cases ha
  · exact frame_append rfl id

theorem frame_abort (s : System) (w : Write) : Frame jobId s (s.abort jobId w) :=
  frame_append rfl fun ha => by cases ha

theorem frame_dispatched (s : System) (o : Dispatched) (w w' : Write) :
    Frame jobId s (s.dispatched jobId o w w') := by
  unfold System.dispatched
  split
  · exact frame_of_eq rfl id
  · cases o with
    | cancelled => exact frame_abort s w
    | raised policy => exact frame_fail s w
    | returned =>
        dsimp only
        split
        · refine Frame.trans ?_ (frame_fail _ w')
          exact frame_append rfl id
        · exact frame_append rfl id

theorem frame_recorded (s : System) (cancelled : Bool) (w : Write) :
    Frame jobId s (s.recorded jobId cancelled w) := by
  unfold System.recorded
  split
  · split_ifs
    · exact frame_of_eq rfl fun ha => by cases ha
    · exact frame_abort s w
    · exact frame_of_eq rfl fun ha => by cases ha
  · exact frame_of_eq rfl id

theorem frame_ensureContainmentTask (s : System) : Frame jobId s (s.ensureContainmentTask jobId) := by
  obtain ⟨hlog, -, hactive, -⟩ := ensureContainmentTask_frame jobId s
  exact frame_of_eq hlog fun ha => hactive ▸ ha

theorem frame_persistCancelled (s : System) (w : Write) : Frame jobId s (s.persistCancelled jobId w) := by
  unfold System.persistCancelled
  split
  · exact frame_ensureContainmentTask s
  · dsimp only
    split
    · exact frame_append rfl id
    · refine Frame.trans ?_ (frame_ensureContainmentTask _)
      exact frame_append rfl id

theorem frame_cancelWithTerminalState (s : System) (readable : Bool) :
    Frame jobId s (s.cancelWithTerminalState jobId readable) := by
  have hfinished : Frame jobId s (if readable && s.isCancelled jobId && s.child then
      s.ensureContainmentTask jobId else s) := by
    split
    · exact frame_ensureContainmentTask s
    · exact frame_of_eq rfl id
  unfold System.cancelWithTerminalState
  split
  · exact frame_of_eq rfl id
  · dsimp only
    split
    · exact hfinished
    · split
      · exact frame_of_eq rfl id
      · exact hfinished

theorem frame_confirm (s : System) (readable : Bool) (w : Write) :
    Frame jobId s (s.confirm jobId readable w) := by
  unfold System.confirm
  split
  · exact frame_of_eq rfl id
  · dsimp only
    split
    · exact frame_of_eq rfl id
    · split
      · refine Frame.trans ?_ (frame_persistCancelled _ w)
        exact frame_of_eq rfl fun ha => by cases ha
      · split
        · refine Frame.trans ?_ (frame_ensureContainmentTask _)
          exact frame_of_eq rfl id
        · exact frame_of_eq rfl id

theorem frame_onCancelledWorkerDone (s : System) (readable : Bool) (w : Write) :
    Frame jobId s (s.onCancelledWorkerDone jobId readable w) := by
  unfold System.onCancelledWorkerDone
  split
  · exact frame_of_eq rfl id
  · dsimp only
    split
    · exact frame_of_eq rfl id
    · split
      · refine Frame.trans ?_ (frame_persistCancelled _ w)
        exact frame_of_eq rfl fun ha => by cases ha
      · exact frame_of_eq rfl fun ha => by cases ha

theorem frame_contain (s : System) (outcome : Option Write) : Frame jobId s (s.contain jobId outcome) := by
  unfold System.contain
  split
  · exact frame_of_eq rfl id
  · cases outcome with
    | none =>
        simp only [reduceCtorEq, if_false]
        split
        · exact frame_of_eq rfl id
        · exact frame_of_eq rfl id
    | some w =>
        simp only
        split
        · exact frame_append rfl id
        · split
          · exact frame_append rfl id
          · exact frame_append rfl id

theorem frame_workStep (jobId : String) (s : System) (l : Step) (mkdirRaises : Bool) :
    Frame jobId s (workStep jobId s l mkdirRaises) := by
  cases l with
  | other e => exact frame_of_eq rfl id
  | start w =>
      rw [workStep, System.startInDirectory]
      split
      · exact (frame_start s w).trans (frame_of_eq rfl id)
      · exact frame_start s w
  | dispatched o w w' => exact frame_dispatched s o w w'
  | recorded cancelled w => exact frame_recorded s cancelled w
  | cancel =>
      rw [workStep, step, System.cancel]
      split
      · exact frame_of_eq rfl id
      · split
        · exact frame_of_eq rfl id
        · exact frame_of_eq rfl id
      all_goals simp
  | cancelWithTerminalState readable => exact frame_cancelWithTerminalState s readable
  | confirm readable w => exact frame_confirm s readable w
  | onCancelledWorkerDone readable w => exact frame_onCancelledWorkerDone s readable w
  | contain outcome => exact frame_contain s outcome
  | noteChild => exact frame_of_eq rfl id
  | clearChild => exact frame_of_eq rfl id

/-! ## All jobs -/

theorem latest_append_other (log : List Event) {events : List Event} (h : ∀ e ∈ events, e.jobId ≠ jobId) :
    latest jobId (log ++ events) = latest jobId log := by
  induction events using List.reverseRecOn with
  | nil => rw [List.append_nil]
  | append_singleton events e ih =>
      rw [List.forall_mem_append, List.forall_mem_singleton] at h
      rw [← List.append_assoc, latest_concat, if_neg fun he => h.2 he.1]
      exact ih h.1

/-- The worker task is done, and its callback has run. -/
def System.Finished (s : System) : Prop := (∃ c, s.worker = .done c) ∧ s.callbackPending = false

/-- Every job releases its slot, and there are not more of them than the ceiling. -/
structure Sound (s : Pool) : Prop where
  jobs : ∀ jobId job, s.job? jobId = some job → Released jobId (jobId ∈ s.unreported) job
  ceiling : s.active ≤ maxThreads

theorem count_set_le {l : List (String × System)} {job next : System}
    (hget : Entries.get? l jobId = some job) (hactive : next.active = true → job.active = true) :
    ((Entries.set l jobId next).filter fun e => e.2.active).length ≤
      (l.filter fun e => e.2.active).length := by
  induction l with
  | nil => cases hget
  | cons e l ih =>
      obtain ⟨k, v⟩ := e
      rw [Entries.get?_cons] at hget
      rw [Entries.set]
      by_cases hk : k = jobId
      · rw [if_pos hk] at hget
        obtain rfl : v = job := Option.some.inj hget
        rw [if_pos hk, List.filter_cons, List.filter_cons]
        dsimp only
        cases hnext : next.active with
        | false =>
            rw [if_neg Bool.false_ne_true]
            split
            · simp
            · simp
        | true => simp [hactive hnext]
      · rw [if_neg hk] at hget
        rw [if_neg hk, List.filter_cons, List.filter_cons]
        split
        · simpa using ih hget
        · exact ih hget

/-- What a job has released does not depend on what the other jobs append. -/
theorem Released.other {u u' : Prop} {job : System} {log events : List Event}
    (h : Released jobId u { job with log := log }) (hevents : ∀ e ∈ events, e.jobId ≠ jobId)
    (hu : u → u') : Released jobId u' { job with log := log ++ events } := by
  refine Released.mono (h.congr rfl id rfl fun hended => ?_) hu
  intro e he
  rw [latest_append_other _ hevents] at he
  exact hended e he

theorem job?_eq_some {s : Pool} {job : System} : s.job? jobId = some job ↔
    ∃ stored, s.jobs.get? jobId = some stored ∧ job = { stored with log := s.log } := by
  rw [Pool.job?, Option.map_eq_some_iff]
  exact exists_congr fun stored => and_congr_right fun _ => eq_comm

theorem Sound.submit {s : Pool} (h : Sound s) (newId : String) (allowed : Bool) (w : Write) :
    Sound (s.submit newId allowed w) := by
  unfold Pool.submit
  split
  · exact h
  · rename_i hnew
    have hnew : newId ∉ s.jobs.keys := fun hmem => hnew (Or.inr hmem)
    -- QUEUED of the new job says nothing about the other ones
    have hothers : ∀ jobId stored w, s.jobs.get? jobId = some stored → Released jobId
        (jobId ∈ s.unreported) { stored with log := appendEvent s.log ⟨newId, .queued, false⟩ w } := by
      intro jobId stored w hstored
      have hjob := h.jobs jobId _ (job?_eq_some.mpr ⟨stored, hstored, rfl⟩)
      have hne : newId ≠ jobId := by
        rintro rfl
        exact hnew (OrderedDict.mem_keys.mpr ⟨stored, hstored⟩)
      unfold appendEvent
      split
      · exact hjob
      · exact hjob.other (List.forall_mem_singleton.mpr hne) id
    split
    · exact h
    · rename_i hroom
      split
      · constructor
        · intro jobId job hjob
          obtain ⟨stored, hstored, rfl⟩ := job?_eq_some.mp hjob
          exact hothers jobId stored w hstored
        · exact h.ceiling
      · constructor
        · intro jobId job hjob
          obtain ⟨stored, hstored, rfl⟩ := job?_eq_some.mp hjob
          dsimp only at hstored ⊢
          rw [OrderedDict.get?_set] at hstored
          split at hstored
          · cases hstored
            exact released_of_live (Or.inl rfl)
          · exact hothers jobId stored .stored hstored
        · have hadded : (Entries.set s.jobs.entries newId (submitted newId s.log)) =
              s.jobs.entries ++ [(newId, submitted newId s.log)] := Entries.set_of_notMem hnew _
          have hroom : s.active < maxThreads := Nat.lt_of_not_le hroom
          change ((Entries.set s.jobs.entries newId (submitted newId s.log)).filter
            fun e => e.2.active).length ≤ maxThreads
          rw [hadded, List.filter_append, List.length_append]
          exact hroom

/-- Neither an append of RUNNING nor the creation of a job's directory raises. -/
def StartsKept (s : Pool) : PoolStep → Prop
  | .submit _ _ _ => True
  | .work jobId l mkdirRaises => ∀ job, s.job? jobId = some job → ¬StartRaises job l mkdirRaises

/-- The jobs file can be read. -/
def ReadsKept : PoolStep → Prop
  | .submit _ _ _ => True
  | .work _ l _ => Readable l

theorem Sound.work {s : Pool} (h : Sound s) {workId : String} {l : Step} {mkdirRaises : Bool}
    (hstart : StartsKept s (.work workId l mkdirRaises)) (hreads : Readable l) :
    Sound (s.work workId l mkdirRaises) := by
  unfold Pool.work
  split
  · exact h
  · rename_i job hjob
    have hnext := (h.jobs workId job hjob).step (hstart job hjob) hreads
    have hframe := frame_workStep workId job l mkdirRaises
    obtain ⟨stored, hstored, rfl⟩ := job?_eq_some.mp hjob
    obtain ⟨events, hlog, hevents⟩ := hframe.log
    have hgrows : ∀ jobId, jobId ∈ s.unreported → jobId ∈
        if terminalAppendRaises workId { stored with log := s.log } l then workId :: s.unreported
        else s.unreported := by
      intro jobId hmem
      split
      · exact List.mem_cons_of_mem _ hmem
      · exact hmem
    constructor
    · intro jobId job' hjob'
      obtain ⟨stored', hstored', rfl⟩ := job?_eq_some.mp hjob'
      dsimp only at hstored' ⊢
      rw [OrderedDict.get?_set] at hstored'
      split at hstored'
      · rename_i hid
        subst hid
        cases hstored'
        refine hnext.mono fun hu => ?_
        rcases hu with hu | hu
        · exact hgrows workId hu
        · rw [if_pos hu]
          exact List.mem_cons_self
      · rename_i hid
        have hother := h.jobs jobId _ (job?_eq_some.mpr ⟨stored', hstored', rfl⟩)
        rw [hlog]
        refine hother.other (fun e he heq => hid ?_) (hgrows jobId)
        rw [← heq, hevents e he]
    · exact Nat.le_trans (count_set_le hstored hframe.active) h.ceiling

theorem Sound.step {s : Pool} (h : Sound s) (l : PoolStep) (hstart : StartsKept s l)
    (hreads : ReadsKept l) : Sound (poolStep s l) := by
  cases l with
  | submit jobId allowed w => exact h.submit jobId allowed w
  | work jobId l mkdirRaises => exact h.work hstart hreads

theorem sound_initial (log : List Event) : Sound { log := log } where
  jobs jobId job hjob := by
    obtain ⟨stored, hstored, -⟩ := job?_eq_some.mp hjob
    cases hstored
  ceiling := Nat.zero_le _

theorem Sound.accepts {s : Pool} (h : Sound s)
    (hfinished : ∀ jobId job, s.job? jobId = some job → job.Finished) {newId : String}
    (hnew : newId ∉ s.jobs.keys) :
    (s.submit newId true .stored).job? newId = some (submitted newId s.log) := by
  have hempty : s.active = 0 := by
    rw [Pool.active, List.length_eq_zero_iff, List.filter_eq_nil_iff]
    intro e he
    have hjob := job?_eq_some.mpr ⟨e.2, Entries.get?_of_mem s.jobs.nodup he, rfl⟩
    obtain ⟨⟨c, hworker⟩, hpending⟩ := hfinished e.1 _ hjob
    rcases (h.jobs e.1 _ hjob).slot c hworker with hactive | ⟨-, hpending'⟩
    · exact Bool.eq_false_iff.mp hactive
    · rw [hpending] at hpending'
      cases hpending'
  have hroom : ¬maxThreads ≤ s.active := by
    rw [hempty]
    decide
  have hdrawn : ¬((!true) = true ∨ newId ∈ s.jobs.keys) := by simpa using hnew
  have hstored : ¬Write.stored.raises = true := by decide
  rw [Pool.submit, if_neg hdrawn, if_neg hroom, if_neg hstored, job?_eq_some]
  exact ⟨_, by rw [OrderedDict.get?_set, if_pos rfl], rfl⟩

/-- Along a run in which no append of RUNNING and no creation of a directory raises, a finished worker
has released its slot, the slots are not more than the ceiling and open again once all workers have
finished, and a finished job is not queued or running unless its terminal event could not be
appended. -/
theorem finished_worker_frees_slot (log : List Event) (steps : List PoolStep)
    (hstarts : Machine.Along poolStep StartsKept { log := log } steps)
    (hreads : ∀ l ∈ steps, ReadsKept l) :
    let s := Machine.run poolStep { log := log } steps
    (∀ jobId job, s.job? jobId = some job → job.Finished → job.active = false) ∧
      s.active ≤ maxThreads ∧
      ((∀ jobId job, s.job? jobId = some job → job.Finished) → ∀ newId, newId ∉ s.jobs.keys →
        (s.submit newId true .stored).job? newId = some (submitted newId s.log)) ∧
      ∀ jobId job, s.job? jobId = some job → job.Finished → jobId ∉ s.unreported →
        ∀ e, latest jobId s.log = some e → e.status ≠ .queued ∧ e.status ≠ .running := by
  have hreads : Machine.Along poolStep (fun _ l => ReadsKept l) { log := log } steps :=
    Machine.along_of_forall fun l hl _ => hreads l hl
  have hsound := (Machine.along_and.mpr ⟨hstarts, hreads⟩).invariant (I := Sound)
    (fun _ l h hl => h.step l hl.1 hl.2) (sound_initial log)
  refine ⟨?_, hsound.ceiling, fun hfinished newId => hsound.accepts hfinished, ?_⟩
  · rintro jobId job hjob ⟨⟨c, hworker⟩, hpending⟩
    rcases (hsound.jobs jobId job hjob).slot c hworker with hactive | ⟨-, hpending'⟩
    · exact hactive
    · rw [hpending] at hpending'
      cases hpending'
  · rintro jobId job hjob ⟨⟨c, hworker⟩, hpending⟩ hreported e he
    have hlog : job.log = (Machine.run poolStep { log := log } steps).log := by
      obtain ⟨stored, -, rfl⟩ := job?_eq_some.mp hjob
      rfl
    rcases (hsound.jobs jobId job hjob).ended c hworker with hended | hunreported | ⟨-, hpending'⟩
    · have hterminal := hended e (hlog ▸ he)
      constructor
      · intro hstatus
        rw [hstatus] at hterminal
        cases hterminal
      · intro hstatus
        rw [hstatus] at hterminal
        cases hterminal
    · exact absurd hunreported hreported
    · rw [hpending] at hpending'
      cases hpending'

/-- A job whose FAILED is lost, and one that is cancelled before it starts. -/
def lostReportRun : List PoolStep :=
  [.submit "a" true .stored, .submit "b" true .stored, .work "a" (.start .stored) false,
    .work "a" (.dispatched (.raised false) .lost .stored) false, .work "b" .cancel false,
    .work "b" (.start .stored) false, .work "b" (.onCancelledWorkerDone true .stored) false]

theorem startsKept_of_label {s : Pool} {l : Step} {workId : String}
    (h : ∀ w, l = .start w → w.raises = false) : StartsKept s (.work workId l false) := by
  rintro job hjob ⟨-, -, w, hl, hraises | hraises⟩
  · rw [h w hl] at hraises
    cases hraises
  · cases hraises

theorem finished_worker_frees_slot_lostReport :
    let s := Machine.run poolStep {} lostReportRun
    (∀ jobId job, s.job? jobId = some job → job.Finished → job.active = false) ∧
      s.active ≤ maxThreads ∧
      ∀ e, latest "b" s.log = some e → e.status ≠ .queued ∧ e.status ≠ .running := by
  have hstarts : Machine.Along poolStep StartsKept {} lostReportRun := by
    refine ⟨trivial, trivial, ?_, ?_, ?_, ?_, ?_, trivial⟩
    all_goals
      apply startsKept_of_label
      intro w hw
      cases hw
      try rfl
  have hreads : ∀ l ∈ lostReportRun, ReadsKept l := by
    simp [lostReportRun, ReadsKept, Readable]
  obtain ⟨hslots, hceiling, -, hreported⟩ := finished_worker_frees_slot [] lostReportRun hstarts hreads
  refine ⟨hslots, hceiling, ?_⟩
  generalize hjob : (Machine.run poolStep {} lostReportRun).job? "b" = found
  have hfinished : found.map (fun job => (job.worker, job.callbackPending)) = some (.done true, false) ∧
      "b" ∉ (Machine.run poolStep {} lostReportRun).unreported := by
    rw [← hjob]
    decide +kernel
  obtain ⟨job, rfl, hstate⟩ := Option.map_eq_some_iff.mp hfinished.1
  obtain ⟨hworker, hpending⟩ := Prod.mk.inj hstate
  exact hreported "b" job hjob ⟨⟨true, hworker⟩, hpending⟩ hfinished.2

/-- The append of RUNNING is lost. -/
def lostStartRun : List PoolStep :=
  [.submit "a" true .stored, .work "a" (.start .lost) false,
    .work "a" (.onCancelledWorkerDone true .stored) false]

/-- The task is done and its callback has run, the job still has its slot and is still queued, and no
append of a terminal event was tried. -/
theorem lostStart_keeps_slot :
    let s := Machine.run poolStep {} lostStartRun
    (s.job? "a").map (fun job => (job.worker, job.callbackPending, job.active)) =
        some (.done false, false, true) ∧
      (latest "a" s.log).map Event.status = some .queued ∧ s.unreported = [] := by
  decide +kernel

end Perpetua.Supervisor

import Mathlib.Data.List.Induction
import Perpetua.Supervisor.Jobs

/-!
# Terminal statuses of a job

A worker that is cancelled while it records its terminal event gets a second one. Otherwise all
terminal events of a job agree.
-/

namespace Perpetua.Supervisor

variable {jobId : String}

/-! ## The folded log -/

theorem latest_concat (log : List Event) (e : Event) :
    latest jobId (log ++ [e]) =
      if e.jobId = jobId ∧ jobId ≠ "" then some e else latest jobId log := by
  unfold latest latestStatusPerJob
  rw [List.foldl_append, List.foldl_cons, List.foldl_nil]
  by_cases hempty : e.jobId = ""
  · rw [if_pos hempty, if_neg]
    rintro ⟨rfl, hne⟩
    exact hne hempty
  · rw [if_neg hempty, Entries.get?_set]
    by_cases hj : e.jobId = jobId
    · rw [if_pos hj, if_pos ⟨hj, hj ▸ hempty⟩]
    · rw [if_neg hj, if_neg fun h => hj h.1]

theorem latest_mem {log : List Event} {e : Event} (h : latest jobId log = some e) :
    e ∈ log ∧ e.jobId = jobId := by
  induction log using List.reverseRecOn with
  | nil => cases h
  | append_singleton log e' ih =>
      rw [latest_concat] at h
      split_ifs at h with he
      · cases h
        exact ⟨List.mem_append_right _ List.mem_cons_self, he.1⟩
      · exact ⟨List.mem_append_left _ (ih h).1, (ih h).2⟩

/-- Once the folded log shows a terminal status of the job, no later event has another one. -/
def Final (jobId : String) (log : List Event) : Prop :=
  ∀ pre post, log = pre ++ post → ∀ e, latest jobId pre = some e → e.status.terminal = true →
    ∀ e' ∈ post, e'.jobId = jobId → e'.status.terminal = true → e'.status = e.status

/-! ## Terminal events -/

/-- The terminal statuses that the log gives the job. -/
def terminals (jobId : String) (log : List Event) : List JobStatus :=
  (log.filter fun e => e.jobId = jobId ∧ e.status.terminal).map Event.status

theorem mem_terminals {log : List Event} {t : JobStatus} :
    t ∈ terminals jobId log ↔
      ∃ e ∈ log, e.jobId = jobId ∧ e.status.terminal = true ∧ e.status = t := by
  simp [terminals, and_assoc]

theorem terminals_concat_other (log : List Event) {e : Event} (h : e.jobId ≠ jobId) :
    terminals jobId (log ++ [e]) = terminals jobId log := by
  simp [terminals, h]

theorem terminals_append_live {log : List Event} {t : JobStatus} (ht : t.terminal = false)
    (a : Bool) (w : Write) :
    terminals jobId (appendEvent log ⟨jobId, t, a⟩ w) = terminals jobId log := by
  unfold appendEvent
  split <;> simp [terminals, ht]

theorem mem_terminals_append {log : List Event} {t t' : JobStatus} {a : Bool} {w : Write}
    (h : t' ∈ terminals jobId (appendEvent log ⟨jobId, t, a⟩ w)) :
    t' ∈ terminals jobId log ∨ t' = t := by
  unfold appendEvent at h
  split at h
  · exact .inl h
  · obtain ⟨e, he, hj, hterm, hs⟩ := mem_terminals.mp h
    rcases List.mem_append.mp he with he | he
    · exact .inl (mem_terminals.mpr ⟨e, he, hj, hterm, hs⟩)
    · rw [List.mem_singleton.mp he] at hs
      exact .inr hs.symm

theorem mem_terminals_append_of_mem {log : List Event} {t : JobStatus} {e : Event} {w : Write}
    (h : t ∈ terminals jobId log) : t ∈ terminals jobId (appendEvent log e w) := by
  unfold appendEvent
  split
  · exact h
  · obtain ⟨e', he, hrest⟩ := mem_terminals.mp h
    exact mem_terminals.mpr ⟨e', List.mem_append_left _ he, hrest⟩

theorem isCancelled_mem {s : System} (h : s.isCancelled jobId = true) :
    .cancelled ∈ terminals jobId s.log := by
  obtain ⟨e, he, hc⟩ := (Option.any_eq_true _ _).mp h
  have hc : e.status = .cancelled := by simpa using hc
  exact mem_terminals.mpr ⟨e, (latest_mem he).1, (latest_mem he).2, by rw [hc]; rfl, hc⟩

theorem final_of_agree {log : List Event} {t : JobStatus}
    (h : ∀ t' ∈ terminals jobId log, t' = t) : Final jobId log := by
  rintro pre post rfl e he hterm e' he' hj hterm'
  have h1 := h e.status (mem_terminals.mpr
    ⟨e, List.mem_append_left _ (latest_mem he).1, (latest_mem he).2, hterm, rfl⟩)
  have h2 := h e'.status (mem_terminals.mpr ⟨e', List.mem_append_right _ he', hj, hterm', rfl⟩)
  rw [h1, h2]

/-! ## The invariant -/

/-- The terminal status that a worker at this place can have reported. -/
def Worker.Reports : Worker → JobStatus → Prop
  | .notStarted, _ | .dispatching, _ => False
  | .recording true, t => t = .succeeded
  | .recording false, t => t = .failed
  | .done true, t => t = .cancelled
  | .done false, _ => True

/-- All terminal events agree with each other and with the worker, and the cleanup runs for a
cancelled job only. -/
structure Settled (jobId : String) (s : System) : Prop where
  agree : ∃ t, ∀ t' ∈ terminals jobId s.log, t' = t
  reported : ∀ t ∈ terminals jobId s.log, s.worker.Reports t
  cleanup : s.cleanup.isSome → .cancelled ∈ terminals jobId s.log

/-- No `CancelledError` reaches the worker while it records its terminal event, and an append of
SUCCEEDED does not raise after its line has reached the file. -/
def Timely (s : System) : Step → Prop
  | .recorded cancelled _ => ∀ succeeded, s.worker = .recording succeeded → cancelled = false
  | .dispatched .returned w _ => s.worker = .dispatching → w ≠ .storedThenRaised
  | _ => True

/-- The other fields do not matter. -/
theorem Settled.congr {s s' : System} (h : Settled jobId s) (hlog : s'.log = s.log)
    (hworker : s'.worker = s.worker) (hcleanup : s'.cleanup.isSome → s.cleanup.isSome) :
    Settled jobId s' :=
  ⟨hlog ▸ h.agree, hlog ▸ hworker ▸ h.reported, fun hc => hlog ▸ h.cleanup (hcleanup hc)⟩

theorem Settled.ensureContainmentTask {s : System} (h : Settled jobId s)
    (hc : .cancelled ∈ terminals jobId s.log) : Settled jobId (s.ensureContainmentTask jobId) := by
  unfold System.ensureContainmentTask
  split_ifs
  · exact h
  · exact h
  · exact h
  · exact ⟨h.agree, h.reported, fun _ => hc⟩

/-- A job whose task was cancelled, or whose cleanup runs, only gets further CANCELLED events. -/
theorem Settled.appendCancelled {s : System} (h : Settled jobId s)
    (hc : ∀ t ∈ terminals jobId s.log, t = .cancelled) (hreports : s.worker.Reports .cancelled)
    (a : Bool) (w : Write) :
    Settled jobId { s with log := appendEvent s.log ⟨jobId, .cancelled, a⟩ w } := by
  have hall : ∀ t ∈ terminals jobId (appendEvent s.log ⟨jobId, .cancelled, a⟩ w),
      t = .cancelled := by
    intro t ht
    rcases mem_terminals_append ht with ht | ht
    · exact hc t ht
    · exact ht
  refine ⟨⟨_, hall⟩, fun t ht => ?_, fun hcleanup => ?_⟩
  · rw [hall t ht]
    exact hreports
  · exact mem_terminals_append_of_mem (h.cleanup hcleanup)

/-- Before its terminal event the job has none, and then no cleanup either. -/
theorem Settled.none_of_early {s : System} (h : Settled jobId s)
    (hearly : s.worker = .notStarted ∨ s.worker = .dispatching) :
    terminals jobId s.log = [] ∧ s.cleanup = none := by
  have hnone : terminals jobId s.log = [] := by
    refine List.eq_nil_iff_forall_not_mem.mpr fun t ht => ?_
    have := h.reported t ht
    rcases hearly with hw | hw <;> simp [hw, Worker.Reports] at this
  refine ⟨hnone, Option.not_isSome_iff_eq_none.mp fun hc => ?_⟩
  have := h.cleanup hc
  simp [hnone] at this

/-- A state without terminal events and without a cleanup. -/
theorem settled_of_none {s : System} (hnone : terminals jobId s.log = []) (hc : s.cleanup = none) :
    Settled jobId s :=
  ⟨⟨.cancelled, by simp [hnone]⟩, by simp [hnone], by simp [hc]⟩

/-- A state whose only terminal event, if any, is the one its worker reports. -/
theorem settled_of_first {s : System} {log : List Event} {t : JobStatus} {w : Write}
    (hnone : terminals jobId log = []) (hlog : s.log = appendEvent log ⟨jobId, t, false⟩ w)
    (hreports : s.worker.Reports t) (hc : s.cleanup = none) : Settled jobId s := by
  have hall : ∀ t' ∈ terminals jobId s.log, t' = t := by
    intro t' ht'
    rw [hlog] at ht'
    rcases mem_terminals_append ht' with ht' | ht'
    · simp [hnone] at ht'
    · exact ht'
  refine ⟨⟨t, hall⟩, fun t' ht' => ?_, by simp [hc]⟩
  rw [hall t' ht']
  exact hreports

/-! ## Steps -/

theorem Settled.start {s : System} (h : Settled jobId s) (w : Write) :
    Settled jobId (s.start jobId w) := by
  unfold System.start
  split_ifs with hw hreq hraises
  · exact h
  all_goals
    obtain ⟨hnone, hc⟩ := h.none_of_early (.inl (not_not.mp hw))
  · exact settled_of_none hnone hc
  · exact settled_of_none ((terminals_append_live rfl _ _).trans hnone) hc
  · exact settled_of_none ((terminals_append_live rfl _ _).trans hnone) hc

/-- A first terminal event, whether its append raises or not. -/
theorem settled_fail {s : System} (hnone : terminals jobId s.log = []) (hc : s.cleanup = none)
    (w : Write) : Settled jobId (s.fail jobId w) := by
  unfold System.fail
  cases hr : w.raises with
  | true => exact settled_of_first hnone rfl trivial hc
  | false => exact settled_of_first hnone rfl rfl hc

theorem Settled.dispatched {s : System} (h : Settled jobId s) (o : Dispatched) (w w' : Write)
    (htimely : Timely s (.dispatched o w w')) : Settled jobId (s.dispatched jobId o w w') := by
  unfold System.dispatched
  by_cases hw : s.worker = .dispatching
  · obtain ⟨hnone, hc⟩ := h.none_of_early (.inr hw)
    rw [if_neg (not_not.mpr hw)]
    cases o with
    | cancelled =>
        simp only [System.abort]
        cases hr : w.raises with
        | true => exact settled_of_first hnone rfl trivial hc
        | false => exact settled_of_first hnone rfl rfl hc
    | raised policy => exact settled_fail hnone hc w
    | returned =>
        cases w with
        | stored =>
            refine settled_of_first (t := .succeeded) (w := .stored) hnone ?_ ?_ hc
            · rfl
            · rfl
        -- The line of SUCCEEDED is not in the file, so FAILED is the first terminal event.
        | lost => exact settled_fail hnone hc w'
        | storedThenRaised => exact absurd rfl (htimely hw)
  · rw [if_pos hw]
    exact h

theorem Settled.recorded {s : System} (h : Settled jobId s) (cancelled : Bool) (w : Write)
    (htimely : Timely s (.recorded cancelled w)) : Settled jobId (s.recorded jobId cancelled w) := by
  unfold System.recorded
  split
  · rename_i succeeded hw
    rw [htimely succeeded hw]
    exact ⟨h.agree, fun _ _ => trivial, h.cleanup⟩
  · exact h

/-- A cancelled task has reported nothing but CANCELLED. -/
theorem Settled.persistCancelled {s : System} (h : Settled jobId s) (hw : s.worker = .done true)
    (w : Write) : Settled jobId (s.persistCancelled jobId w) := by
  have hall : ∀ t ∈ terminals jobId s.log, t = .cancelled := by
    intro t ht
    have := h.reported t ht
    rwa [hw] at this
  have happended := h.appendCancelled hall (by rw [hw]; rfl) false w
  unfold System.persistCancelled
  split
  · rename_i hc
    exact h.ensureContainmentTask (isCancelled_mem hc)
  · cases w with
    | stored =>
        refine happended.ensureContainmentTask (mem_terminals.mpr ?_)
        exact ⟨_, List.mem_append_right _ List.mem_cons_self, rfl, rfl, rfl⟩
    | lost => exact happended
    | storedThenRaised => exact happended

theorem Settled.onCancelledWorkerDone {s : System} (h : Settled jobId s) (readable : Bool)
    (w : Write) : Settled jobId (s.onCancelledWorkerDone jobId readable w) := by
  unfold System.onCancelledWorkerDone
  split
  · exact h
  · by_cases hw : s.worker = .done true
    · simp only
      rw [if_neg (not_not.mpr hw)]
      split
      · apply Settled.persistCancelled
        · exact h.congr rfl rfl id
        · exact hw
      · exact h.congr rfl rfl id
    · simp only
      rw [if_pos hw]
      exact h.congr rfl rfl id

theorem Settled.cancel {s : System} (h : Settled jobId s) : Settled jobId s.cancel := by
  unfold System.cancel
  split
  · exact h
  · split
    · exact ⟨h.agree, h.reported, h.cleanup⟩
    · exact h

theorem Settled.cancelWithTerminalState {s : System} (h : Settled jobId s) (readable : Bool) :
    Settled jobId (s.cancelWithTerminalState jobId readable) := by
  have hfinished : Settled jobId
      (if readable && s.isCancelled jobId && s.child then s.ensureContainmentTask jobId else s) := by
    split
    · rename_i hc
      simp only [Bool.and_eq_true] at hc
      exact h.ensureContainmentTask (isCancelled_mem hc.1.2)
    · exact h
  unfold System.cancelWithTerminalState
  split
  · exact h
  · simp only
    split
    · exact hfinished
    · split
      · exact ⟨h.agree, h.reported, h.cleanup⟩
      · exact hfinished

theorem Settled.confirm {s : System} (h : Settled jobId s) (readable : Bool) (w : Write) :
    Settled jobId (s.confirm jobId readable w) := by
  unfold System.confirm
  split
  · exact h
  · simp only
    split
    · exact h.congr rfl rfl id
    · split
      · rename_i hw
        apply Settled.persistCancelled
        · exact h.congr rfl rfl id
        · exact hw
      · split
        · rename_i hc
          refine Settled.ensureContainmentTask ?_ (isCancelled_mem hc)
          exact h.congr rfl rfl id
        · exact h.congr rfl rfl id

theorem Settled.contain {s : System} (h : Settled jobId s) (outcome : Option Write) :
    Settled jobId (s.contain jobId outcome) := by
  unfold System.contain
  cases hcleanup : s.cleanup with
  | none => exact h
  | some attempts =>
      have hc := h.cleanup (by simp [hcleanup])
      obtain ⟨t, ht⟩ := h.agree
      have hall : ∀ t' ∈ terminals jobId s.log, t' = .cancelled := fun t' ht' =>
        (ht t' ht').trans (ht _ hc).symm
      cases outcome with
      | none =>
          simp only [reduceCtorEq, if_false]
          split
          · exact h.congr rfl rfl nofun
          · exact h.congr rfl rfl fun _ => by simp [hcleanup]
      | some w =>
          have happended := h.appendCancelled hall (h.reported _ hc) true w
          simp only
          split
          · exact happended.congr rfl rfl nofun
          · split
            · exact happended.congr rfl rfl nofun
            · exact happended.congr rfl rfl fun _ => by simp [hcleanup]

theorem Settled.step {s : System} (h : Settled jobId s) (l : Step) (htimely : Timely s l) :
    Settled jobId (step jobId s l) := by
  cases l with
  | other e =>
      simp only [Supervisor.step]
      split
      · exact h
      · rename_i hj
        have hlog := terminals_concat_other s.log hj
        refine ⟨?_, ?_, ?_⟩
        · simpa only [hlog] using h.agree
        · simpa only [hlog] using h.reported
        · simpa only [hlog] using h.cleanup
  | start w => exact h.start w
  | dispatched o w w' => exact h.dispatched o w w' htimely
  | recorded cancelled w => exact h.recorded cancelled w htimely
  | cancel => exact h.cancel
  | cancelWithTerminalState readable => exact h.cancelWithTerminalState readable
  | confirm readable w => exact h.confirm readable w
  | onCancelledWorkerDone readable w => exact h.onCancelledWorkerDone readable w
  | contain outcome => exact h.contain outcome
  | noteChild => exact ⟨h.agree, h.reported, h.cleanup⟩
  | clearChild => exact ⟨h.agree, h.reported, h.cleanup⟩

theorem settled_submitted {log : List Event} (hfresh : ∀ e ∈ log, e.jobId ≠ jobId) :
    Settled jobId (submitted jobId log) := by
  refine settled_of_none (List.eq_nil_iff_forall_not_mem.mpr fun t ht => ?_) rfl
  obtain ⟨e, he, hj, hterm, -⟩ := mem_terminals.mp ht
  rcases List.mem_append.mp he with he | he
  · exact hfresh e he hj
  · rw [List.mem_singleton.mp he] at hterm
    cases hterm

/-- Whenever the requests to cancel come, a terminal status is final along a timely run. -/
theorem final_run (jobId : String) (log : List Event) (steps : List Step)
    (hfresh : ∀ e ∈ log, e.jobId ≠ jobId)
    (htimely : Machine.Along (step jobId) Timely (submitted jobId log) steps) :
    Final jobId (Machine.run (step jobId) (submitted jobId log) steps).log := by
  have hsettled := htimely.invariant (I := Settled jobId) (fun _ l h ht => h.step l ht)
    (settled_submitted hfresh)
  obtain ⟨t, ht⟩ := hsettled.agree
  exact final_of_agree ht

/-- A job that is cancelled while it is dispatched, and whose cancellation is confirmed. -/
def cancelledRun : List Step :=
  [.start .stored, .cancelWithTerminalState true, .dispatched .cancelled .stored .stored,
    .onCancelledWorkerDone true .stored, .confirm true .stored, .contain (some .stored)]

theorem final_run_cancelled :
    Final "j" (Machine.run (step "j") (submitted "j" []) cancelledRun).log :=
  final_run "j" [] cancelledRun (by simp) ⟨trivial, trivial, trivial, trivial, trivial, trivial, trivial⟩

/-- The job is cancelled while it records that it has succeeded. -/
def lateCancelRun : List Step :=
  [.start .stored, .dispatched .returned .stored .stored, .cancel, .recorded true .stored]

theorem not_final_lateCancel :
    ¬Final "j" (Machine.run (step "j") (submitted "j" []) lateCancelRun).log := by
  intro h
  have := h [⟨"j", .queued, false⟩, ⟨"j", .running, false⟩, ⟨"j", .succeeded, false⟩]
    [⟨"j", .cancelled, false⟩] (by decide +kernel) _ rfl rfl _ List.mem_cons_self rfl rfl
  cases this

end Perpetua.Supervisor

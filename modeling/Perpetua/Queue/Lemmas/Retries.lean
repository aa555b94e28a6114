import Perpetua.Queue.Lemmas.Fields

/-!
# Retry counters

A release carries counters that its operation computed from the snapshots it read. Where the reading
is still current when the release commits, a task's folded retry count is the number of its
committed failures.
-/

namespace Perpetua.Queue

open GossipBus

variable {τ ι : Type}

/-! ## Counters and failures -/

def foldedRetries (log : GossipLog τ) (taskId : String) : Option ℤ :=
  (folded log taskId "retry_count").bind asInt?

def foldedMaxRetries (log : GossipLog τ) (taskId : String) : Option ℤ :=
  (folded log taskId "max_retries").bind asInt?

def isAbandoned (p : Payload) : Bool := field? p "kind" = some "task_abandoned"

/-- An event of `queue_fail`; the one of a cleanup names no agent. -/
def isFailure (p : Payload) : Bool :=
  isAbandoned p || field? p "kind" = some "task_failed" && (field? p "agent_id").isSome

def failures (taskId : String) (log : GossipLog τ) : List Payload :=
  (taskEvents taskId log).filter isFailure

theorem failures_subset {t : String} {log : GossipLog τ} {p : Payload} (h : p ∈ failures t log) :
    p ∈ taskEvents t log ∧ isFailure p := List.mem_filter.mp h

theorem failures_concat {t : String} {log log' : GossipLog τ} {p : Payload}
    (h : taskEvents t log' = taskEvents t log ++ [p]) :
    failures t log' = failures t log ++ if isFailure p then [p] else [] := by
  rw [failures, h, List.filter_append, List.filter_singleton, Bool.cond_eq_ite]
  rfl

theorem not_isFailure {p : Payload} {kind : String} (h : field? p "kind" = some kind)
    (hkind : kind ≠ "task_abandoned" ∧ kind ≠ "task_failed") : isFailure p = false := by
  simp [isFailure, isAbandoned, h, hkind.1, hkind.2]

/-- The retry count that the release stores. -/
def Reason.retryCount? : Reason → Option ℤ
  | .complete _ => none
  | .fail n _ _ | .abandon n _ _ | .agentDead n _ => some n

/-- The retry count that its operation read. -/
def Reason.readRetries? : Reason → Option ℤ
  | .complete _ => none
  | .fail n _ _ | .abandon n _ _ => some (n - 1)
  | .agentDead n _ => some n

def Reason.maxRetries? : Reason → Option ℤ
  | .complete _ => none
  | .fail _ m _ | .abandon _ m _ | .agentDead _ m => some m

/-- A release by `queue_fail`. -/
def Reason.isFailure : Reason → Bool
  | .fail .. | .abandon .. => true
  | _ => false

def Reason.isAbandon : Reason → Bool
  | .abandon .. => true
  | _ => false

theorem Reason.retryCount_of_isFailure {reason : Reason} (h : reason.isFailure) :
    ∃ n, reason.retryCount? = some n ∧ reason.readRetries? = some (n - 1) := by
  cases reason with
  | fail n _ _ | abandon n _ _ => exact ⟨n, rfl, rfl⟩
  | _ => cases h

theorem Reason.ending_of_isAbandon {reason : Reason} (h : reason.isAbandon) :
    reason.ending = .abandoned := by
  cases reason with
  | abandon _ _ _ => rfl
  | _ => cases h

/-- The counters of a task of three retries. -/
structure Reason.Counted (reason : Reason) : Prop where
  maxRetries : ∀ m, reason.maxRetries? = some m → m = 3
  fails : reason.isFailure → ∀ n, reason.retryCount? = some n → (reason.isAbandon ↔ 3 < n)

theorem failReason_counted {task : Payload} {notes : String} {reason : Reason}
    (hmax : intField? task "max_retries" 3 = some 3) (h : failReason task notes = some reason) :
    reason.Counted := by
  unfold failReason at h
  rw [hmax] at h
  split at h
  · rename_i n m _ hm
    cases hm
    split at h
    · cases h
      refine ⟨fun m hm => by cases hm; rfl, fun _ n hn => ?_⟩
      cases hn
      simp only [Reason.isAbandon, Bool.false_eq_true, false_iff]
      omega
    · cases h
      refine ⟨fun m hm => by cases hm; rfl, fun _ n hn => ?_⟩
      cases hn
      simp only [Reason.isAbandon, true_iff]
      omega
  · cases h

/-! ## The tally -/

/-- The folded retry count of the task is the number of its failures, of which there are at most four,
the fourth an abandonment. -/
structure Tallied (log : GossipLog τ) (t : String) : Prop where
  counted : taskEvents t log ≠ [] → foldedRetries log t = some ((failures t log).length : ℤ)
  bounded : (failures t log).length ≤ 4
  abandoned : ∀ n p, (failures t log)[n]? = some p → (isAbandoned p ↔ n = 3)
  final : (failures t log).length = 4 → foldedStatus log t = some "abandoned"

theorem Tallied.nil {log : GossipLog τ} {t : String} (h : taskEvents t log = []) : Tallied log t := by
  have hnone : failures t log = [] := by rw [failures, h]; rfl
  exact ⟨fun hne => absurd h hne, by simp [hnone], by simp [hnone], by simp [hnone]⟩

theorem Tallied.of_taskEvents {log log' : GossipLog τ} {t : String} (ht : t ≠ "") (h : Tallied log t)
    (hevents : taskEvents t log' = taskEvents t log) : Tallied log' t := by
  have hfailures : failures t log' = failures t log := by rw [failures, hevents, failures]
  have hfolded := folded_of_taskEvents ht hevents
  refine ⟨?_, ?_, ?_, ?_⟩
  · rw [hevents, hfailures, foldedRetries, hfolded]; exact h.counted
  · rw [hfailures]; exact h.bounded
  · rw [hfailures]; exact h.abandoned
  · rw [hfailures, foldedStatus_eq, hfolded, ← foldedStatus_eq]; exact h.final

/-- One more event of a task that is not abandoned. -/
theorem Tallied.concat {log log' : GossipLog τ} {t : String} {p : Payload} (ht : t ≠ "")
    (h : Tallied log t) (hevents : taskEvents t log' = taskEvents t log ++ [p])
    (hkeys : (p.map Prod.fst).Nodup) (hlen : (failures t log).length ≤ 3)
    (hcount : ((Entries.get? p "retry_count").or (folded log t "retry_count")).bind asInt? =
      some ((failures t log).length + if isFailure p then (1 : ℤ) else 0))
    (habandon : isFailure p → (isAbandoned p ↔ (failures t log).length = 3))
    (hstatus : isAbandoned p → Entries.get? p "status" = some (.str "abandoned")) :
    Tallied log' t := by
  have hfolded := folded_concat ht hevents hkeys
  have hfailures := failures_concat hevents
  refine ⟨fun _ => ?_, ?_, fun n q hq => ?_, fun hfour => ?_⟩
  · rw [foldedRetries, hfolded, hcount, hfailures]
    split <;> simp
  · rw [hfailures]
    split <;> simp <;> omega
  · rw [hfailures] at hq
    by_cases hp : isFailure p
    · rw [if_pos hp] at hq
      by_cases hn : n < (failures t log).length
      · rw [List.getElem?_append_left hn] at hq
        exact h.abandoned n q hq
      · rw [List.getElem?_append_right (by omega)] at hq
        rw [List.getElem?_singleton] at hq
        split at hq
        · cases hq
          rw [habandon hp]
          omega
        · cases hq
    · rw [if_neg hp, List.append_nil] at hq
      exact h.abandoned n q hq
  · rw [hfailures] at hfour
    by_cases hp : isFailure p
    · rw [if_pos hp, List.length_append, List.length_singleton] at hfour
      rw [foldedStatus_eq, hfolded, hstatus ((habandon hp).mpr (by omega))]
      rfl
    · rw [if_neg hp, List.append_nil] at hfour
      omega

/-! ## Pending releases -/

/-- The retry limit in every event of the log is three. -/
def MaxThree (log : GossipLog τ) : Prop :=
  ∀ row ∈ log, ∀ t, isEventOf t row →
    (row.payload.map Prod.fst).Nodup ∧
      ∀ v, Entries.get? row.payload "max_retries" = some v → v = .num (.int 3)

theorem MaxThree.folded {log : GossipLog τ} (h : MaxThree log) {t : String} {v : Json.Value}
    (hv : folded log t "max_retries" = some v) : v = .num (.int 3) := by
  have ht : t ≠ "" := by
    rintro rfl
    rw [Queue.folded, get?_latestTaskSnapshots_empty] at hv
    cases hv
  have hall : ∀ p ∈ taskEvents t log, (p.map Prod.fst).Nodup ∧
      ∀ v, Entries.get? p "max_retries" = some v → v = .num (.int 3) := by
    intro p hp
    obtain ⟨row, hrow, rfl⟩ := List.mem_map.mp hp
    obtain ⟨hrow, hevent⟩ := List.mem_filter.mp hrow
    exact h row hrow t hevent
  rw [folded_eq ht] at hv
  generalize taskEvents t log = events at hall hv
  induction events using List.reverseRecOn with
  | nil => cases hv
  | append_singleton events p ih =>
      obtain ⟨hkeys, hmax⟩ := hall p (by simp)
      rw [List.foldl_append, List.foldl_cons, List.foldl_nil, Entries.get?_update,
        Entries.get?_reverse hkeys] at hv
      cases hp : Entries.get? p "max_retries" with
      | some v' =>
          rw [hp, Option.some_or, Option.some.injEq] at hv
          rw [← hv]; exact hmax v' hp
      | none =>
          rw [hp, Option.none_or] at hv
          exact ih (fun q hq => hall q (List.mem_append_left _ hq)) hv

theorem MaxThree.snapshot {log : GossipLog τ} (h : MaxThree log) {t : String} {task : Payload}
    (hget : Entries.get? (latestTaskSnapshots log) t = some task) :
    intField? task "max_retries" 3 = some 3 := by
  rw [intField?, folded_of_get? hget]
  cases hv : Queue.folded log t "max_retries" with
  | none => rfl
  | some v => rw [h.folded hv]; rfl

theorem deadRelease_counted {log : GossipLog τ} (h : MaxThree log) {row : ClaimRow τ} {r : Release}
    (hr : deadRelease (latestTaskSnapshots log) row = some r) : r.reason.Counted := by
  have hmax : intField? ((Entries.get? (latestTaskSnapshots log) row.taskId).getD []) "max_retries" 3 =
      some 3 := by
    cases hget : Entries.get? (latestTaskSnapshots log) row.taskId with
    | none => rfl
    | some task => exact h.snapshot hget
  unfold deadRelease at hr
  simp only [hmax] at hr
  split at hr
  · rename_i hm
    cases hm
    cases hr
    exact ⟨fun m hm => by cases hm; rfl, by rintro ⟨⟩⟩
  · cases hr

theorem checkOwned_get? {snapshots : Snapshots} {t a : String} {task : Payload}
    (h : checkOwned snapshots t a = .ok task) : Entries.get? snapshots t = some task := by
  unfold checkOwned at h
  split at h
  · cases h
  · cases h
  · rename_i task' _ hget
    simp only at h
    split at h
    · split at h
      · rw [hget, Except.ok.inj h]
      · cases h
    · split at h
      · cases h
      · split at h <;> cases h

theorem ownedRelease_ok {snapshots : Snapshots} {t a : String} {reason : Payload → Option Reason}
    {r : Release} (h : ownedRelease snapshots t a reason = .ok r) :
    ∃ task, Entries.get? snapshots t = some task ∧ reason task = some r.reason := by
  unfold ownedRelease at h
  split at h
  · cases h
  · rename_i task howned
    split at h
    · rename_i why hreason
      rw [← Except.ok.inj h]
      exact ⟨task, checkOwned_get? howned, hreason⟩
    · cases h

theorem counted_complete (notes : String) : (Reason.complete notes).Counted := ⟨nofun, nofun⟩

/-- Every release ahead of an operation carries counters of a task of three retries. -/
def PendingCounted (s : System τ ι) : Prop :=
  ∀ i attempt todo released, s.phase i = .releasing attempt todo released →
    ∀ r, some r ∈ todo → r.reason.Counted

theorem PendingCounted.move [DecidableEq ι] {s : System τ ι} (h : PendingCounted s) (i : ι)
    {phase : Phase τ} (hphase : ∀ attempt todo released, phase = .releasing attempt todo released →
      ∀ r, some r ∈ todo → r.reason.Counted) : PendingCounted (s.move i phase) := by
  intro j attempt todo released hj
  rw [System.move_phase] at hj
  split at hj
  · exact hphase attempt todo released hj
  · exact h j attempt todo released hj

theorem PendingCounted.board {s : System τ ι} (h : PendingCounted s) (board : Board τ) :
    PendingCounted { s with board } := h

theorem PendingCounted.read [DecidableEq ι] {ops : ι → Operation} {s : System τ ι}
    (h : PendingCounted s) (hmax : MaxThree s.board.log) (i : ι) (ptAgentId : Option String)
    (worktree : String) : PendingCounted (stepRead ops s i ptAgentId worktree) := by
  unfold stepRead
  simp only
  split
  · split <;> exact h.move i nofun
  · split
    · rename_i r hr
      obtain ⟨task, -, hreason⟩ := ownedRelease_ok hr
      refine h.move i fun _ _ _ hphase r' hr' => ?_
      cases hphase
      cases List.mem_singleton.mp hr'
      rw [← Option.some.inj hreason]
      exact counted_complete _
    · exact h.move i nofun
  · split
    · rename_i r hr
      obtain ⟨task, hget, hreason⟩ := ownedRelease_ok hr
      refine h.move i fun _ _ _ hphase r' hr' => ?_
      cases hphase
      cases List.mem_singleton.mp hr'
      exact failReason_counted (hmax.snapshot hget) hreason
    · exact h.move i nofun
  · exact h.move i nofun
  · refine h.move i fun _ _ _ hphase r hr => ?_
    cases hphase
    obtain ⟨row, -, hrow⟩ := List.mem_map.mp hr
    exact deadRelease_counted hmax hrow
  · exact h

theorem afterRelease_todo {op : Operation} {result : Except Refusal String}
    {todo todo' : List (Option Release)} {released released' : List String} {attempt : ℕ}
    (h : afterRelease (τ := τ) op result todo released = .releasing attempt todo' released') :
    todo' = todo := by
  cases op <;> cases result <;> cases h
  all_goals rfl

variable [Redaction.UnicodeTables]

theorem PendingCounted.attempt [DecidableEq ι] {ops : ι → Operation} {s : System τ ι}
    (h : PendingCounted s) (i : ι) (env : WriteEnv τ) : PendingCounted (stepAttempt ops s i env) := by
  unfold stepAttempt
  split
  · split
    · split
      · exact h.move i (by simp)
      · split <;> exact h.move i nofun
      · split
        · exact (h.board _).move i (by simp)
        · exact h.move i (by simp)
    · exact h
  · exact h.move i nofun
  · exact h.move i nofun
  · rename_i attempt r todo released hphase
    have htodo := h i _ _ _ hphase
    have hafter : ∀ result attempt' todo' released',
        afterRelease (τ := τ) (ops i) result todo released = .releasing attempt' todo' released' →
          ∀ r, some r ∈ todo' → r.reason.Counted := by
      intro result _ _ _ heq r' hr'
      rw [afterRelease_todo heq] at hr'
      exact htodo r' (List.mem_cons_of_mem _ hr')
    split
    · exact h.move i nofun
    · split
      · refine h.move i fun _ _ _ heq => ?_
        cases heq
        exact htodo
      · exact h.move i (hafter _)
    · split
      · exact (h.board _).move i (hafter _)
      · exact h.move i (hafter _)
  · exact h

theorem PendingCounted.step [DecidableEq ι] {ops : ι → Operation} {s : System τ ι}
    (h : PendingCounted s) (hmax : MaxThree s.board.log) (action : Action τ ι) :
    PendingCounted (step ops s action) := by
  cases action with
  | add args suffix env => exact h
  | read i ptAgentId worktree => exact h.read hmax i ptAgentId worktree
  | attempt i env => exact h.attempt i env
  | announce i worktree timestamp env =>
      simp only [Queue.step, stepAnnounce]
      split
      · exact (h.board _).move i (by simp)
      · exact h.move i (by simp)
      · exact h
  | abort i =>
      simp only [Queue.step]
      split
      · exact h
      · exact h.move i (by simp)

/-! ## The stored counters -/

theorem get?_release_retries (r : Release) : Entries.get? (durablePayload r.payload) "retry_count" =
    r.reason.retryCount?.map fun n => .num (.int n) := by
  rw [get?_durable (by decide)]
  obtain ⟨t, a, reason⟩ := r
  cases reason <;> rfl

theorem get?_release_max (r : Release) : Entries.get? (durablePayload r.payload) "max_retries" =
    r.reason.maxRetries?.map fun n => .num (.int n) := by
  rw [get?_durable (by decide)]
  obtain ⟨t, a, reason⟩ := r
  cases reason <;> rfl

theorem field?_release_kind (r : Release) : field? (durablePayload r.payload) "kind" =
    some (TaskEvent.release r.agentId r.reason.ending).kind := by
  have h := (r.payload_describes "" ()).describes.kind
  rw [field?, h]
  rfl

theorem isAbandoned_release (r : Release) :
    isAbandoned (durablePayload r.payload) = r.reason.isAbandon := by
  rw [isAbandoned, field?_release_kind]
  obtain ⟨t, a, reason⟩ := r
  cases reason <;> simp [Reason.ending, TaskEvent.kind, Reason.isAbandon]

theorem isFailure_release (r : Release) :
    isFailure (durablePayload r.payload) = r.reason.isFailure := by
  rw [isFailure, isAbandoned_release, field?_release_kind]
  obtain ⟨t, a, reason⟩ := r
  cases reason with
  | complete _ => simp [Reason.ending, TaskEvent.kind, Reason.isAbandon, Reason.isFailure]
  | abandon _ _ _ => simp [Reason.isAbandon, Reason.isFailure]
  | fail n m notes =>
      have hagent := get?_durable_str (p := (⟨t, a, .fail n m notes⟩ : Release).payload)
        (k := "agent_id") (s := a) (by decide) rfl
      simp [Reason.ending, TaskEvent.kind, Reason.isFailure, field?, hagent, Json.Value.str?]
  | agentDead n m =>
      have hagent := get?_durable_none (p := (⟨t, a, .agentDead n m⟩ : Release).payload)
        (k := "agent_id") (by decide) rfl
      simp [Reason.isAbandon, Reason.isFailure, field?, hagent]

theorem MaxThree.append {log added : GossipLog τ} {row : GossipRow τ} (h : MaxThree log) {t : String}
    {e : TaskEvent} (hrow : RowDescribes t e row) (hadded : Inserts log row added)
    (hmax : ∀ v, Entries.get? row.payload "max_retries" = some v → v = .num (.int 3)) :
    MaxThree (log ++ added) := by
  intro row' hmem
  rcases List.mem_append.mp hmem with hmem | hmem
  · exact h row' hmem
  · rcases hadded with rfl | ⟨rfl, -⟩
    · rw [List.mem_singleton.mp hmem]
      exact fun _ _ => ⟨hrow.describes.keys, hmax⟩
    · cases hmem

theorem MaxThree.effect {ops : ι → Operation} {s : System τ ι} {action : Action τ ι} {b : Board τ}
    (h : MaxThree s.board.log) (hpending : PendingCounted s) (heffect : Effect ops s action b) :
    MaxThree b.log := by
  cases heffect with
  | same => exact h
  | pulse hrow =>
      intro row hmem t ht
      rcases List.mem_append.mp hmem with hmem | hmem
      · exact h row hmem t ht
      · rw [List.mem_singleton.mp hmem, hrow t] at ht
        cases ht
  | enqueue hrow hpayload =>
      obtain ⟨name, level, hpayload⟩ := hpayload
      refine h.append hrow (Or.inl rfl) fun v hv => ?_
      rw [hpayload, (get?_enqueue ..).2.2] at hv
      exact (Option.some.inj hv).symm
  | claim _ _ _ _ hrow _ hadded hpayload =>
      refine h.append hrow hadded fun v hv => ?_
      rw [hpayload, get?_durable_none (by decide) rfl] at hv
      cases hv
  | @release i env r _ _ _ hrow _ hadded hpayload _ hphase =>
      refine h.append hrow hadded fun v hv => ?_
      obtain ⟨attempt, todo, released, hphase⟩ := hphase
      have hcounted := hpending i _ _ _ hphase r List.mem_cons_self
      rw [hpayload, get?_release_max] at hv
      obtain ⟨m, hm, rfl⟩ := Option.map_eq_some_iff.mp hv
      rw [hcounted.maxRetries m hm]

end Perpetua.Queue

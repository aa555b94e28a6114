import Perpetua.Queue.Theorems

/-!
# The dependency gate

A claim commits on snapshots it read earlier. Whatever has happened since, each dependency of its
task names, in those snapshots, a task whose completion is already in the log.
-/

namespace Perpetua.Queue

open GossipBus

variable {τ ι : Type}

/-! ## What a dependency names -/

/-- The task that a dependency names: the one of that id, else the only one of that name. -/
inductive Resolves (snapshots : Snapshots) (dependency : String) : String → Payload → Prop
  | direct {state : Payload} (h : Entries.get? snapshots dependency = some state) :
      Resolves snapshots dependency dependency state
  | named {taskId : String} {state : Payload} (hdirect : Entries.get? snapshots dependency = none)
      (hname : snapshots.filter
        (fun e => dependency ≠ "" && field? e.2 "task_name" = some dependency) = [(taskId, state)]) :
      Resolves snapshots dependency taskId state

theorem byTaskName_eq (snapshots : Snapshots) (name : String) :
    byTaskName snapshots name = (snapshots.filter fun e =>
      name ≠ "" && field? e.2 "task_name" = some name).map Prod.snd := by
  rw [byTaskName, List.filter_map]
  rfl

theorem resolves_of_met {snapshots : Snapshots} {d : String}
    (h : dependencyState snapshots d = .met) :
    ∃ taskId state, Resolves snapshots d taskId state ∧ isCompleted state := by
  unfold dependencyState at h
  split at h
  · rename_i state hget
    split at h
    · rename_i hcompleted; exact ⟨d, state, .direct hget, hcompleted⟩
    · cases h
  · rename_i hget
    split at h
    · cases h
    · rename_i state hname
      split at h
      · rename_i hcompleted
        rw [byTaskName_eq] at hname
        obtain ⟨⟨taskId, _⟩, hfilter, rfl⟩ := List.map_eq_singleton_iff.mp hname
        exact ⟨taskId, _, .named hget hfilter, hcompleted⟩
      · cases h
    · cases h

theorem checkDependencies_ok {snapshots : Snapshots} {task : Payload}
    (h : checkDependencies snapshots task = .ok ()) :
    ∀ d ∈ dependencies task, dependencyState snapshots d = .met := by
  intro d hd
  unfold checkDependencies at h
  simp only at h
  split at h
  · cases h
  · rename_i hambiguous
    split at h
    · cases h
    · rename_i hunmet
      simp only [ne_eq, Decidable.not_not, List.filter_eq_nil_iff, decide_eq_true_eq] at hambiguous hunmet
      cases hstate : dependencyState snapshots d with
      | met => rfl
      | unmet => exact absurd hstate (hunmet d hd)
      | ambiguous => exact absurd hstate (hambiguous d hd)

/-! ## Snapshots of completed tasks -/

theorem snapshots_keys (log : GossipLog τ) :
    ((latestTaskSnapshots log).map Prod.fst).Nodup ∧
      ∀ e ∈ latestTaskSnapshots log, e.1 ≠ "" := by
  have hfold : ∀ (rows : GossipLog τ) (snapshots : Snapshots),
      (snapshots.map Prod.fst).Nodup ∧ (∀ e ∈ snapshots, e.1 ≠ "") →
        ((rows.foldl foldEvent snapshots).map Prod.fst).Nodup ∧
          ∀ e ∈ rows.foldl foldEvent snapshots, e.1 ≠ "" := by
    intro rows
    induction rows with
    | nil => intro _ h; exact h
    | cons row rows ih =>
        intro snapshots h
        apply ih
        unfold foldEvent
        split
        · exact h
        · rename_i t _
          split
          · exact h
          · rename_i ht
            refine ⟨Entries.nodup_set h.1 _ _, fun e he => ?_⟩
            have hkey := List.mem_map_of_mem (f := Prod.fst) he
            rw [Entries.keys_set] at hkey
            split at hkey
            · obtain ⟨e', he', hkeys⟩ := List.mem_map.mp hkey
              rw [← hkeys]; exact h.2 e' he'
            · rcases List.mem_append.mp hkey with hkey | hkey
              · obtain ⟨e', he', hkeys⟩ := List.mem_map.mp hkey
                rw [← hkeys]; exact h.2 e' he'
              · rw [List.mem_singleton.mp hkey]; exact ht
  exact hfold _ [] ⟨List.nodup_nil, by simp⟩

theorem Resolves.get? {log : GossipLog τ} {d k : String} {state : Payload}
    (h : Resolves (latestTaskSnapshots log) d k state) :
    k ≠ "" ∧ Entries.get? (latestTaskSnapshots log) k = some state := by
  have hmem : (k, state) ∈ latestTaskSnapshots log := by
    cases h with
    | direct h => exact Entries.mem_of_get? h
    | named _ hname => exact List.mem_of_mem_filter (hname ▸ List.mem_singleton_self _)
  exact ⟨(snapshots_keys log).2 _ hmem, Entries.get?_of_mem (snapshots_keys log).1 hmem⟩

variable [Redaction.UnicodeTables]

/-- Every task event of the log is an event of the lifecycle. -/
def Described (log : GossipLog τ) : Prop :=
  ∀ row ∈ log, ∀ t, isEventOf t row → ∃ e, Describes e row.payload

theorem Described.append {log added : GossipLog τ} {row : GossipRow τ} (h : Described log)
    {t : String} {e : TaskEvent} (hrow : RowDescribes t e row) (hadded : Inserts log row added) :
    Described (log ++ added) := by
  intro row' hrow' t' ht'
  rcases List.mem_append.mp hrow' with hrow' | hrow'
  · exact h row' hrow' t' ht'
  · rcases hadded with rfl | ⟨rfl, -⟩
    · rw [List.mem_singleton.mp hrow']; exact ⟨e, hrow.describes⟩
    · cases hrow'

theorem Described.effect {ops : ι → Operation} {s : System τ ι} {action : Action τ ι} {b : Board τ}
    (h : Described s.board.log) (heffect : Effect ops s action b) : Described b.log := by
  cases heffect with
  | same => exact h
  | pulse hrow =>
      intro row hmem t ht
      rcases List.mem_append.mp hmem with hmem | hmem
      · exact h row hmem t ht
      · rw [List.mem_singleton.mp hmem, hrow t] at ht
        cases ht
  | enqueue hrow => exact h.append hrow (Or.inl rfl)
  | claim _ _ _ _ hrow _ hadded => exact h.append hrow hadded
  | release _ hrow _ hadded => exact h.append hrow hadded

theorem described_run [DecidableEq ι] (ops : ι → Operation) (steps : List (Action τ ι)) :
    Described (runSteps ops steps).board.log :=
  Machine.run_invariant (I := fun s : System τ ι => Described s.board.log)
    (fun s action h => h.effect (step_effect ops s action))
    (fun _ hrow => absurd hrow List.not_mem_nil) steps

theorem Describes.completed {e : TaskEvent} {p : Payload} (h : Describes e p)
    (hstatus : field? p "status" = some "completed") : field? p "kind" = some "task_complete" := by
  rw [h.field?_kind]
  rw [field?, h.status, Option.bind_some, Json.Value.str?] at hstatus
  cases e with
  | enqueue => simp [TaskEvent.status] at hstatus
  | claim a => simp [TaskEvent.status] at hstatus
  | release a ending =>
      cases ending with
      | completed => rfl
      | failed => simp [TaskEvent.status] at hstatus
      | abandoned => simp [TaskEvent.status] at hstatus

/-- A snapshot is completed only through a `task_complete` event of its task. -/
theorem Described.completed {log : GossipLog τ} (h : Described log) {k : String} {state : Payload}
    (hk : k ≠ "") (hget : Entries.get? (latestTaskSnapshots log) k = some state)
    (hcompleted : isCompleted state) :
    ∃ p ∈ taskEvents k log, field? p "kind" = some "task_complete" := by
  have hall : ∀ p ∈ taskEvents k log, ∃ e, Describes e p := by
    intro p hp
    obtain ⟨row, hrow, rfl⟩ := List.mem_map.mp hp
    obtain ⟨hrow, hevent⟩ := List.mem_filter.mp hrow
    exact h row hrow k hevent
  rw [get?_latestTaskSnapshots hk] at hget
  split at hget
  · cases hget
  · rename_i hne
    -- the last event sets the status that the fold ends with
    obtain ⟨before, p, hevents⟩ := (List.eq_nil_or_concat _).resolve_left hne
    rw [hevents, List.concat_eq_append] at hget hall ⊢
    obtain ⟨e, hdescribes⟩ := hall p (by simp)
    refine ⟨p, by simp, hdescribes.completed ?_⟩
    rw [List.foldl_append, List.foldl_cons, List.foldl_nil, Option.some.injEq] at hget
    simp only [isCompleted, decide_eq_true_eq, ← hget, field?] at hcompleted
    rw [Entries.get?_update, Entries.get?_reverse hdescribes.keys, hdescribes.status] at hcompleted
    rw [field?, hdescribes.status]
    exact hcompleted

/-! ## The gate -/

/-- Each dependency of the task names a task with a completion in the log. -/
def DependenciesDone (log : GossipLog τ) (task : Payload) : Prop :=
  ∀ d ∈ dependencies task, ∃ k state, Resolves (latestTaskSnapshots log) d k state ∧
    ∃ p ∈ taskEvents k log, field? p "kind" = some "task_complete"

/-- A step that adds a `task_claim` event commits a claim, and the dependencies of its task were done
in the log that the claim had read. -/
def DependencyGate [DecidableEq ι] (ops : ι → Operation) (s : System τ ι) (action : Action τ ι) : Prop :=
  ∀ row taskId, (step ops s action).board.log = s.board.log ++ [row] → isEventOf taskId row →
    isClaim row.payload →
      ∃ i env t a readAt attempt worktree, action = .attempt i env ∧ ops i = .claim t a ∧
        taskId = Redaction.redactText t ∧ s.phase i = .claiming readAt attempt worktree ∧
        readAt ≤ s.board.log.length ∧
        ∃ task, Entries.get? (latestTaskSnapshots (s.board.log.take readAt)) t = some task ∧
          DependenciesDone (s.board.log.take readAt) task

theorem Checked.dependenciesDone {ops : ι → Operation} {s : System τ ι} (h : Checked ops s)
    (hdescribed : Described s.board.log) {i : ι} {readAt : ℕ} {t a : String}
    (hclaiming : s.ClaimingAt i readAt) (hop : ops i = .claim t a) :
    ∃ task, Entries.get? (latestTaskSnapshots (s.board.log.take readAt)) t = some task ∧
      DependenciesDone (s.board.log.take readAt) task := by
  obtain ⟨-, hchecked⟩ := h i readAt hclaiming
  obtain ⟨ptAgentId, hcheck⟩ := hchecked t a hop
  obtain ⟨task, hget, hdependencies⟩ := checkClaim_dependencies hcheck
  have hread : Described (s.board.log.take readAt) :=
    fun row hrow => hdescribed row (List.mem_of_mem_take hrow)
  refine ⟨task, hget, fun d hd => ?_⟩
  obtain ⟨k, state, hresolves, hcompleted⟩ :=
    resolves_of_met (checkDependencies_ok hdependencies d hd)
  obtain ⟨hk, hstate⟩ := hresolves.get?
  exact ⟨k, state, hresolves, hread.completed hk hstate hcompleted⟩

theorem Checked.gate [DecidableEq ι] {ops : ι → Operation} {s : System τ ι} (h : Checked ops s)
    (hdescribed : Described s.board.log) (action : Action τ ι) : DependencyGate ops s action := by
  intro row taskId hlog hevent hclaim
  have heffect := step_effect ops s action
  generalize (Queue.step ops s action).board = b at hlog heffect
  cases heffect with
  | same => simp at hlog
  | pulse hrow =>
      obtain rfl : _ = row := List.singleton_inj.mp (List.append_cancel_left hlog)
      rw [hrow taskId] at hevent
      cases hevent
  | enqueue hrow =>
      obtain rfl : _ = row := List.singleton_inj.mp (List.append_cancel_left hlog)
      obtain ⟨_, he⟩ := hrow.describes.isClaim_iff.mp hclaim
      cases he
  | @claim i env t a _ readAt attempt _ _ hop hphase _ _ hrow _ hadded =>
      obtain rfl := List.append_cancel_left hlog
      rcases hadded with hadded | ⟨hadded, -⟩
      · obtain rfl := List.singleton_inj.mp hadded
        rw [hrow.isEventOf, decide_eq_true_eq] at hevent
        exact ⟨i, env, t, a, readAt, attempt, _, rfl, hop, hevent.symm, hphase,
          (h i readAt ⟨_, _, hphase⟩).1, h.dependenciesDone hdescribed ⟨_, _, hphase⟩ hop⟩
      · cases hadded
  | release _ hrow _ hadded =>
      obtain rfl := List.append_cancel_left hlog
      rcases hadded with hadded | ⟨hadded, -⟩
      · obtain rfl := List.singleton_inj.mp hadded
        obtain ⟨_, he⟩ := hrow.describes.isClaim_iff.mp hclaim
        cases he
      · cases hadded

/-- In every interleaving, no claim commits before the dependencies of its task have completed. -/
theorem dependencies_completed [DecidableEq ι] (ops : ι → Operation) (steps : List (Action τ ι)) :
    Machine.Along (step ops) (DependencyGate ops) {} steps :=
  Machine.along_iff.mpr fun pre action _ _ =>
    (checked_run ops pre).gate (described_run ops pre) action

end Perpetua.Queue

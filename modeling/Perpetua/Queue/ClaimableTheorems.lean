import Perpetua.Queue.DependencyTheorems
import Perpetua.Queue.RoundTripTheorems

/-!
# Claimable tasks

The dependencies of a task are the items that it was added with, and no other event changes them. An
item that is blank is a dependency too, and names no task.
-/

namespace Perpetua.Queue

open GossipBus

variable {τ ι : Type}

/-! ## Dependencies that are done -/

/-- The dependency is the id of a completed task, or the name of exactly one, which is completed. -/
def Done (snapshots : Snapshots) (dependency : String) : Prop :=
  (∃ state, Entries.get? snapshots dependency = some state ∧ isCompleted state) ∨
    ∃ e, snapshots.filter (fun e => field? e.2 "task_name" = some dependency) = [e] ∧ isCompleted e.2

/-- No task that is not completed has the dependency for its id. -/
def NoOpenId (snapshots : Snapshots) (dependency : String) : Prop :=
  ∀ state, Entries.get? snapshots dependency = some state → isCompleted state

/-- No dependency is blank, and none is the id of a task that is not completed. -/
def Resolvable (snapshots : Snapshots) (names : List String) : Prop :=
  "" ∉ names ∧ ∀ d ∈ names, NoOpenId snapshots d

theorem dependencyState_empty (log : GossipLog τ) :
    dependencyState (latestTaskSnapshots log) "" = .unmet := by
  rw [dependencyState, get?_latestTaskSnapshots_empty]
  simp [byTaskName]

theorem dependencyState_done {snapshots : Snapshots} {d : String} (hne : d ≠ "")
    (h : Done snapshots d) :
    NoOpenId snapshots d ∧ dependencyState snapshots d = .met ∨
      ¬ NoOpenId snapshots d ∧ dependencyState snapshots d = .unmet := by
  cases hget : Entries.get? snapshots d with
  | some state =>
      rw [dependencyState, hget]
      dsimp only
      by_cases hcompleted : isCompleted state = true
      · refine .inl ⟨fun state' hstate => ?_, if_pos hcompleted⟩
        rw [hget] at hstate
        rwa [← Option.some.inj hstate]
      · exact .inr ⟨fun hopen => hcompleted (hopen state hget), if_neg hcompleted⟩
  | none =>
      refine .inl ⟨fun state hstate => ?_, ?_⟩
      · rw [hget] at hstate
        cases hstate
      · rcases h with ⟨state, hstate, -⟩ | ⟨e, hname, hcompleted⟩
        · rw [hget] at hstate
          cases hstate
        · have hbyName : byTaskName snapshots d = [e.2] := by
            rw [byTaskName_eq]
            simp only [hne, ne_eq, not_false_eq_true, decide_true, Bool.true_and, hname, List.map_singleton]
          rw [dependencyState, hget, hbyName]
          exact if_pos hcompleted

/-- Dependencies that are done unless they are blank are met when they are resolvable, and else some
of them are unmet. -/
theorem checkDependencies_cases {log : GossipLog τ} {task : Payload}
    (h : ∀ d ∈ dependencies task, d ≠ "" → Done (latestTaskSnapshots log) d) :
    Resolvable (latestTaskSnapshots log) (dependencies task) ∧
        checkDependencies (latestTaskSnapshots log) task = .ok () ∨
      ¬ Resolvable (latestTaskSnapshots log) (dependencies task) ∧
        ∃ names, checkDependencies (latestTaskSnapshots log) task = .error (.unmetDependencies names) := by
  have hstate : ∀ d ∈ dependencies task,
      d ≠ "" ∧ NoOpenId (latestTaskSnapshots log) d ∧
          dependencyState (latestTaskSnapshots log) d = .met ∨
        ¬ (d ≠ "" ∧ NoOpenId (latestTaskSnapshots log) d) ∧
          dependencyState (latestTaskSnapshots log) d = .unmet := by
    intro d hd
    by_cases hne : d = ""
    · subst hne
      exact .inr ⟨fun hmet => hmet.1 rfl, dependencyState_empty log⟩
    · rcases dependencyState_done hne (h d hd hne) with ⟨hopen, hmet⟩ | ⟨hopen, hunmet⟩
      · exact .inl ⟨hne, hopen, hmet⟩
      · exact .inr ⟨fun hmet => hopen hmet.2, hunmet⟩
  have hambiguous : (dependencies task).filter
      (fun d => dependencyState (latestTaskSnapshots log) d = .ambiguous) = [] := by
    rw [List.filter_eq_nil_iff]
    intro d hd hambiguous
    rcases hstate d hd with ⟨-, -, hmet⟩ | ⟨-, hunmet⟩
    · simp [hmet] at hambiguous
    · simp [hunmet] at hambiguous
  have hcheck : checkDependencies (latestTaskSnapshots log) task =
      if (dependencies task).filter (fun d => dependencyState (latestTaskSnapshots log) d = .unmet) ≠ []
      then .error (.unmetDependencies ((dependencies task).filter
        fun d => dependencyState (latestTaskSnapshots log) d = .unmet))
      else .ok () := by
    rw [checkDependencies]
    exact if_neg (not_not.mpr hambiguous)
  by_cases hunmet : (dependencies task).filter
      (fun d => dependencyState (latestTaskSnapshots log) d = .unmet) = []
  · rw [if_neg (not_not.mpr hunmet)] at hcheck
    have hall : ∀ d ∈ dependencies task, d ≠ "" ∧ NoOpenId (latestTaskSnapshots log) d := by
      intro d hd
      rcases hstate d hd with ⟨hne, hopen, -⟩ | ⟨-, hnot⟩
      · exact ⟨hne, hopen⟩
      · exact absurd (decide_eq_true hnot) (List.filter_eq_nil_iff.mp hunmet d hd)
    exact .inl ⟨⟨fun hd => (hall "" hd).1 rfl, fun d hd => (hall d hd).2⟩, hcheck⟩
  · rw [if_pos hunmet] at hcheck
    refine .inr ⟨fun hall => ?_, _, hcheck⟩
    obtain ⟨d, hd⟩ := List.exists_mem_of_ne_nil _ hunmet
    obtain ⟨hd, hnot⟩ := List.mem_filter.mp hd
    rcases hstate d hd with ⟨-, -, hmet⟩ | ⟨hbad, -⟩
    · simp [hmet] at hnot
    · exact hbad ⟨fun hd' => hall.1 (hd' ▸ hd), hall.2 d hd⟩

/-! ## The refusals of a claim -/

/-- The claim is refused for its dependencies. -/
def Refusal.ForDependencies : Refusal → Prop
  | .unmetDependencies _ | .ambiguousDependencies _ => True
  | _ => False

/-- A check before the dependencies refuses the claim. -/
def RefusedEarlier (snapshots : Snapshots) (ptAgentId : Option String) (taskId agentId : String) : Prop :=
  ∃ task, Entries.get? snapshots taskId = some task ∧
    (field? task "status" ∈ [some "claimed", some "completed", some "abandoned"] ∨
      ∃ why, checkReservation task ptAgentId agentId = .error why)

theorem checkReservation_error {task : Payload} {ptAgentId : Option String} {a : String} {why : Refusal}
    (h : checkReservation task ptAgentId a = .error why) : ¬ why.ForDependencies := by
  unfold checkReservation at h
  split at h
  · cases h
  · split at h
    · cases h
      exact id
    · split at h
      · cases h
        exact id
      · cases h

theorem checkClaim_cases {snapshots : Snapshots} {t : String} {task : Payload}
    (hget : Entries.get? snapshots t = some task) (hne : task ≠ []) (ptAgentId : Option String)
    (a : String) :
    (¬ RefusedEarlier snapshots ptAgentId t a ∧
        checkClaim snapshots ptAgentId t a = checkDependencies snapshots task) ∨
      RefusedEarlier snapshots ptAgentId t a ∧
        ∃ why, checkClaim snapshots ptAgentId t a = .error why ∧ ¬ why.ForDependencies := by
  obtain ⟨e, rest, rfl⟩ := List.exists_cons_of_ne_nil hne
  have hearlier : RefusedEarlier snapshots ptAgentId t a ↔
      field? (e :: rest) "status" ∈ [some "claimed", some "completed", some "abandoned"] ∨
        ∃ why, checkReservation (e :: rest) ptAgentId a = .error why := by
    rw [RefusedEarlier, hget]
    simp
  rw [hearlier, checkClaim, hget]
  dsimp only
  by_cases hclaimed : field? (e :: rest) "status" = some "claimed"
  · rw [if_pos hclaimed]
    exact .inr ⟨.inl (by simp [hclaimed]), _, rfl, id⟩
  rw [if_neg hclaimed]
  by_cases hcompleted : field? (e :: rest) "status" = some "completed"
  · rw [if_pos hcompleted]
    exact .inr ⟨.inl (by simp [hcompleted]), _, rfl, id⟩
  rw [if_neg hcompleted]
  by_cases habandoned : field? (e :: rest) "status" = some "abandoned"
  · rw [if_pos habandoned]
    exact .inr ⟨.inl (by simp [habandoned]), _, rfl, id⟩
  rw [if_neg habandoned]
  cases hreservation : checkReservation (e :: rest) ptAgentId a with
  | error why => exact .inr ⟨.inr ⟨why, rfl⟩, why, rfl, checkReservation_error hreservation⟩
  | ok _ => exact .inl ⟨by simp [hclaimed, hcompleted, habandoned], rfl⟩

/-! ## The items of a string -/

/-- The items of a `depends_on` string. -/
def items (dependsOn : Option String) : List String :=
  match dependsOn with
  | none => []
  | some s => (PyText.split ',' s).map PyText.strip

theorem mem_items_of_mem {dependsOn : Option String} {d : String} (h : d ∈ dependsOnList dependsOn) :
    d ∈ items dependsOn := by
  cases dependsOn with
  | none => exact h
  | some s =>
      rw [dependsOnList] at h
      split at h
      · cases h
      · exact h

/-- No item of the string is blank, or the string is empty. -/
def NoBlankItem (dependsOn : Option String) : Prop := dependsOn = some "" ∨ "" ∉ items dependsOn

theorem resolvable_dependsOnList {log : GossipLog τ} {dependsOn : Option String} :
    Resolvable (latestTaskSnapshots log) (dependsOnList dependsOn) ↔
      NoBlankItem dependsOn ∧ ∀ d ∈ items dependsOn, NoOpenId (latestTaskSnapshots log) d := by
  cases dependsOn with
  | none => simp [Resolvable, NoBlankItem, dependsOnList, items]
  | some s =>
      by_cases hs : s = ""
      · subst hs
        have hnone : NoOpenId (latestTaskSnapshots log) "" := by
          intro state hstate
          rw [get?_latestTaskSnapshots_empty] at hstate
          cases hstate
        have hitems : items (some "") = [""] := by decide
        simp [Resolvable, NoBlankItem, dependsOnList, hitems, hnone]
      · have hlist : dependsOnList (some s) = items (some s) := if_neg hs
        rw [hlist, Resolvable, NoBlankItem, Option.some.injEq, or_iff_right hs]

theorem dependencies_of_folded {log : GossipLog τ} {t : String} {names : List String}
    (h : folded log t "depends_on" = some (.arr (names.map .str))) :
    ∃ task, Entries.get? (latestTaskSnapshots log) t = some task ∧ task ≠ [] ∧
      dependencies task = names := by
  obtain ⟨task, hget, hne⟩ := exists_snapshot h
  refine ⟨task, hget, hne, ?_⟩
  rw [dependencies, folded_of_get? hget, h]
  dsimp only
  rw [List.filterMap_map]
  exact List.filterMap_some

/-! ## The dependencies of a task over a run -/

section Runs

variable [Redaction.UnicodeTables]

/-- An event of some task without the field. -/
theorem folded_append {log added : GossipLog τ} {row : GossipRow τ} {taskId t k : String}
    {e : TaskEvent} (ht : t ≠ "") (hrow : RowDescribes taskId e row) (hadded : Inserts log row added)
    (hk : Entries.get? row.payload k = none) : folded (log ++ added) t k = folded log t k := by
  rcases hadded with rfl | ⟨rfl, -⟩
  · by_cases heq : t = taskId
    · subst heq
      rw [folded_concat ht (hrow.taskEvents log) hrow.describes.keys, hk, Option.none_or]
    · exact folded_of_taskEvents ht (hrow.taskEvents_ne log heq) k
  · rw [List.append_nil]

/-- The step adds no task under this id. -/
def AddsOther (t : String) : Action τ ι → Prop
  | .add args suffix _ => Redaction.redactText (taskIdOf args suffix) ≠ t
  | _ => True

theorem folded_dependsOn_effect {ops : ι → Operation} {s : System τ ι} {action : Action τ ι}
    {b : Board τ} {t : String} (ht : t ≠ "") (hother : AddsOther t action)
    (heffect : Effect ops s action b) :
    folded b.log t "depends_on" = folded s.board.log t "depends_on" := by
  cases heffect with
  | same => rfl
  | pulse hrow =>
      apply folded_of_taskEvents ht
      rw [taskEvents_concat, hrow, if_neg Bool.false_ne_true]
  | enqueue hrow => exact folded_of_taskEvents ht (hrow.taskEvents_ne _ (Ne.symm hother)) _
  | claim _ _ _ _ hrow _ hadded hpayload =>
      apply folded_append ht hrow hadded
      rw [hpayload]
      exact get?_durable_none (by decide) rfl
  | @release _ _ r _ _ _ hrow _ hadded hpayload =>
      apply folded_append ht hrow hadded
      rw [hpayload]
      obtain ⟨taskId, agentId, reason⟩ := r
      cases reason <;> exact get?_durable_none (by decide) rfl

theorem redactItems_str {names : List String} (h : ∀ d ∈ names, Redaction.redactText d = d) :
    Redaction.redactItems (names.map .str) = names.map .str := by
  induction names with
  | nil => rfl
  | cons d names ih =>
      rw [List.forall_mem_cons] at h
      rw [List.map_cons, Redaction.redactItems, Redaction.redactValue, h.1, ih h.2]

theorem redactText_empty : Redaction.redactText "" = "" :=
  Redaction.redactText_of_short (by simp) (by simp)

/-- What `queue_add` adds to the log. -/
theorem queueAdd_log {b : Board τ} {args : QueueAddArgs} {suffix : String} {env : WriteEnv τ}
    (hadded : (queueAdd args suffix env b).log ≠ b.log) :
    ∃ name level, (queueAdd args suffix env b).log = b.log ++ [(⟨env.uuid, env.now, "heartbeat",
      durablePayload (enqueuePayload args (taskIdOf args suffix) name level)⟩ : GossipRow τ)] := by
  unfold queueAdd at hadded ⊢
  split at hadded
  · exact absurd rfl hadded
  next hvalid =>
    rw [if_neg hvalid]
    dsimp only at hadded ⊢
    split at hadded
    next level _ _ =>
      obtain ⟨added, hinserts, hlog⟩ := insertEvent_inserts env.uuid env.now "heartbeat"
        (enqueuePayload args (taskIdOf args suffix) (upperName (PyText.strip args.priority)) level) b.log
      rw [hlog] at hadded ⊢
      rcases hinserts with rfl | ⟨rfl, -⟩
      · exact ⟨_, level, rfl⟩
      · exact absurd (List.append_nil _) hadded
    · exact absurd rfl hadded

/-- The dependencies that `queue_add` stores, when redaction leaves the items as they are. -/
theorem folded_dependsOn_add {b : Board τ} {args : QueueAddArgs} {suffix : String} {env : WriteEnv τ}
    (hadded : (queueAdd args suffix env b).log ≠ b.log)
    (hid : Redaction.redactText (taskIdOf args suffix) = taskIdOf args suffix)
    (hitems : ∀ d ∈ items args.dependsOn, d ≠ "" → Redaction.redactText d = d) :
    folded (queueAdd args suffix env b).log (taskIdOf args suffix) "depends_on" =
      some (.arr ((dependsOnList args.dependsOn).map .str)) := by
  obtain ⟨name, level, hlog⟩ := queueAdd_log hadded
  have hrow := (enqueuePayload_describes args (taskIdOf args suffix) name level env.uuid
    env.now).taskEvents b.log
  rw [hid, ← hlog] at hrow
  have hclean : ∀ d ∈ dependsOnList args.dependsOn, Redaction.redactText d = d := by
    intro d hd
    by_cases hne : d = ""
    · rw [hne, redactText_empty]
    · exact hitems d (mem_items_of_mem hd) hne
  have hfield : Entries.get? (enqueuePayload args (taskIdOf args suffix) name level) "depends_on" =
      some (.arr ((dependsOnList args.dependsOn).map .str)) := rfl
  rw [folded_concat (taskIdOf_ne_empty args suffix) hrow (keys_enqueuePayload ..),
    get?_durable (by decide), hfield, Option.map_some, Redaction.redactValue, redactItems_str hclean,
    Option.some_or]

/-! ## Claims of a task whose dependencies are done -/

variable [DecidableEq ι] (ops : ι → Operation)

/-- The next reading of the operation refuses it for its dependencies. -/
def Blocked (s : System τ ι) (i : ι) (ptAgentId : Option String) (worktree : String) : Prop :=
  ∃ why, (step ops s (.read i ptAgentId worktree)).phase i = .finished (.refused why) ∧
    why.ForDependencies

variable {ops}

theorem blocked_iff {s : System τ ι} {i : ι} {t a : String} (hop : ops i = .claim t a)
    (hphase : s.phase i = .start) (ptAgentId : Option String) (worktree : String) :
    Blocked ops s i ptAgentId worktree ↔
      ∃ why, checkClaim (latestTaskSnapshots s.board.log) ptAgentId t a = .error why ∧
        why.ForDependencies := by
  rw [Blocked, step, stepRead, hop, hphase]
  dsimp only
  cases hcheck : checkClaim (latestTaskSnapshots s.board.log) ptAgentId t a with
  | ok _ => simp [System.move]
  | error why => simp [System.move]

/-- A task was added, and its dependencies are done. A claim of it is not refused for them exactly
when no item of the string was blank and none is the id of another open task, or when another check
refuses the claim before. -/
theorem not_blocked_iff {s : System τ ι} {args : QueueAddArgs} {suffix : String} {env : WriteEnv τ}
    (hadded : (queueAdd args suffix env s.board).log ≠ s.board.log)
    (hid : Redaction.redactText (taskIdOf args suffix) = taskIdOf args suffix)
    {steps : List (Action τ ι)} (hother : ∀ action ∈ steps, AddsOther (taskIdOf args suffix) action)
    {i : ι} {a : String} (hop : ops i = .claim (taskIdOf args suffix) a) {s' : System τ ι}
    (hrun : Machine.run (step ops) s (.add args suffix env :: steps) = s') (hphase : s'.phase i = .start)
    (hitems : ∀ d ∈ items args.dependsOn, d ≠ "" →
      Redaction.redactText d = d ∧ Done (latestTaskSnapshots s'.board.log) d)
    (ptAgentId : Option String) (worktree : String) :
    ¬ Blocked ops s' i ptAgentId worktree ↔
      (NoBlankItem args.dependsOn ∧
          ∀ d ∈ items args.dependsOn, NoOpenId (latestTaskSnapshots s'.board.log) d) ∨
        RefusedEarlier (latestTaskSnapshots s'.board.log) ptAgentId (taskIdOf args suffix) a := by
  have ht := taskIdOf_ne_empty args suffix
  have hfolded : folded s'.board.log (taskIdOf args suffix) "depends_on" =
      some (.arr ((dependsOnList args.dependsOn).map .str)) := by
    rw [← hrun, Machine.run_cons]
    have halong : Machine.Along (step ops) (fun _ action => AddsOther (taskIdOf args suffix) action)
        (step ops s (.add args suffix env)) steps :=
      Machine.along_of_forall fun action haction _ => hother action haction
    refine halong.invariant (I := fun s : System τ ι => folded s.board.log (taskIdOf args suffix)
      "depends_on" = some (.arr ((dependsOnList args.dependsOn).map .str))) ?_ ?_
    · intro s action hs hadds
      rw [folded_dependsOn_effect ht hadds (step_effect ops s action), hs]
    · exact folded_dependsOn_add hadded hid fun d hd hne => (hitems d hd hne).1
  obtain ⟨task, hget, hne, hdependencies⟩ := dependencies_of_folded hfolded
  have hdone : ∀ d ∈ dependencies task, d ≠ "" → Done (latestTaskSnapshots s'.board.log) d := by
    rw [hdependencies]
    exact fun d hd hne => (hitems d (mem_items_of_mem hd) hne).2
  have hcheck := checkDependencies_cases hdone
  rw [hdependencies, resolvable_dependsOnList] at hcheck
  rw [blocked_iff hop hphase]
  rcases checkClaim_cases hget hne ptAgentId a with ⟨hearlier, hclaim⟩ | ⟨hearlier, why, hclaim, hwhy⟩
  · rw [hclaim, or_iff_left hearlier]
    rcases hcheck with ⟨hresolvable, hok⟩ | ⟨hnot, names, herror⟩
    · refine iff_of_true ?_ hresolvable
      rintro ⟨why, hwhy, -⟩
      rw [hok] at hwhy
      cases hwhy
    · exact iff_of_false (fun hblocked => hblocked ⟨_, herror, trivial⟩) hnot
  · refine iff_of_true ?_ (.inr hearlier)
    rintro ⟨why', hwhy', hfor⟩
    rw [hclaim] at hwhy'
    exact hwhy (Except.error.inj hwhy' ▸ hfor)

end Runs

section SampleRuns

local instance claimableTables : Redaction.UnicodeTables := asciiTables

/-- A board with one task, which is completed. -/
def completedBoard : System ℕ (Fin 2) :=
  { board.log := [⟨"u0", 0, "heartbeat",
      [("kind", .str "task_complete"), ("task_id", .str "a"), ("status", .str "completed")]⟩] }

def dependentArgs (dependsOn : String) : QueueAddArgs := { sampleArgs with dependsOn := some dependsOn }

/-- The board once the task is added. -/
def dependentBoard (dependsOn : String) : System ℕ (Fin 2) :=
  step (soloOps "A") completedBoard (.add (dependentArgs dependsOn) "0" ⟨.granted, "u1", 0⟩)

theorem done_a (dependsOn : String)
    (hget : (Entries.get? (latestTaskSnapshots (dependentBoard dependsOn).board.log) "a").any isCompleted) :
    Done (latestTaskSnapshots (dependentBoard dependsOn).board.log) "a" := by
  obtain ⟨state, hstate, hcompleted⟩ := (Option.any_eq_true _ _).mp hget
  exact .inl ⟨state, hstate, hcompleted⟩

theorem not_blocked_sample : ¬ Blocked (soloOps "A") (dependentBoard "a") 0 none "w" := by
  have hitems : items (some "a") = ["a"] := by decide
  have hadded : (queueAdd (dependentArgs "a") "0" ⟨.granted, "u1", 0⟩ completedBoard.board).log.length ≠
      completedBoard.board.log.length := by decide +kernel
  have hopen : (Entries.get? (latestTaskSnapshots (dependentBoard "a").board.log) "a").all isCompleted := by
    decide +kernel
  have hother : ∀ action ∈ ([] : List (Action ℕ (Fin 2))), AddsOther "p-n-0" action := by simp
  refine (not_blocked_iff (fun h => hadded (congrArg List.length h)) (by decide +kernel) hother rfl rfl
    rfl ?_ none "w").mpr (.inl ⟨.inr ?_, ?_⟩)
  · intro d hd _
    obtain rfl : d = "a" := List.mem_singleton.mp (hitems ▸ hd)
    exact ⟨by decide +kernel, done_a "a" (by decide +kernel)⟩
  · exact (by decide : "" ∉ items (some "a"))
  · intro d hd state hstate
    obtain rfl : d = "a" := List.mem_singleton.mp (hitems ▸ hd)
    exact (Option.all_eq_true _ _).mp hopen state hstate

/-- After one comma too many the task cannot be claimed. -/
theorem blocked_trailing_comma :
    (∀ d ∈ items (some "a,"), d ≠ "" →
      Redaction.redactText d = d ∧ Done (latestTaskSnapshots (dependentBoard "a,").board.log) d) ∧
      Blocked (soloOps "A") (dependentBoard "a,") 0 none "w" := by
  have hitems : items (some "a,") = ["a", ""] := by decide
  have hclaims : soloOps "A" 0 = .claim "p-n-0" "A" := rfl
  have hstart : (dependentBoard "a,").phase 0 = .start := rfl
  refine ⟨?_, (blocked_iff hclaims hstart none "w").mpr ⟨.unmetDependencies [""], ?_, trivial⟩⟩
  · intro d hd hne
    rw [hitems] at hd
    obtain rfl : d = "a" := (List.mem_pair.mp hd).resolve_right hne
    exact ⟨by decide +kernel, done_a "a," (by decide +kernel)⟩
  · decide +kernel

end SampleRuns

end Perpetua.Queue

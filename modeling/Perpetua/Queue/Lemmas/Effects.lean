import Perpetua.Queue.Lemmas.Events

/-!
# What a step does to the board

`Effect` says once what a step can do to the log and to the claim rows. An operation that stands at
its claim has read the snapshots of an earlier log, and `claiming_step` says where that reading
comes from.
-/

namespace Perpetua.Queue

open GossipBus

variable {τ ι : Type}

/-! ## Moves -/

section Moves

variable [DecidableEq ι]

@[simp] theorem System.move_board (s : System τ ι) (i : ι) (phase : Phase τ) :
    (s.move i phase).board = s.board := rfl

theorem System.move_phase (s : System τ ι) (i j : ι) (phase : Phase τ) :
    (s.move i phase).phase j = if j = i then phase else s.phase j :=
  Function.update_apply ..

theorem stepRead_board (ops : ι → Operation) (s : System τ ι) (i : ι) (ptAgentId : Option String)
    (worktree : String) :
    (stepRead ops s i ptAgentId worktree).board = s.board := by
  unfold stepRead
  simp only
  split <;> (try split) <;> rfl

/-! ### Claims under way -/

/-- The operation stands at its claim, on a reading of `readAt` events. -/
def System.ClaimingAt (s : System τ ι) (i : ι) (readAt : ℕ) : Prop :=
  ∃ attempt worktree, s.phase i = .claiming readAt attempt worktree

def Phase.isClaiming : Phase τ → Bool
  | .claiming .. => true
  | _ => false

theorem claimingAt_move {s : System τ ι} {i j : ι} {phase : Phase τ} {readAt : ℕ}
    (h : (s.move j phase).ClaimingAt i readAt) :
    s.ClaimingAt i readAt ∨ i = j ∧ ∃ attempt worktree, phase = .claiming readAt attempt worktree := by
  obtain ⟨attempt, worktree, h⟩ := h
  rw [System.move_phase] at h
  split at h
  · rename_i hij; exact Or.inr ⟨hij, attempt, worktree, h⟩
  · exact Or.inl ⟨attempt, worktree, h⟩

theorem claimingAt_move_ne {s : System τ ι} {i j : ι} {phase : Phase τ} {readAt : ℕ}
    (h : (s.move j phase).ClaimingAt i readAt) (hphase : phase.isClaiming = false) :
    s.ClaimingAt i readAt := by
  rcases claimingAt_move h with h | ⟨_, attempt, worktree, rfl⟩
  · exact h
  · cases hphase

theorem afterRelease_not_claiming (op : Operation) (result : Except Refusal String)
    (todo : List (Option Release)) (released : List String) :
    (afterRelease (τ := τ) op result todo released).isClaiming = false := by
  cases op <;> cases result <;> rfl

theorem stepRead_claimingAt {ops : ι → Operation} {s : System τ ι} {i j : ι} {ptAgentId : Option String}
    {worktree : String} {readAt : ℕ}
    (h : (stepRead ops s j ptAgentId worktree).ClaimingAt i readAt) :
    s.ClaimingAt i readAt ∨ readAt = s.board.log.length ∧ ∃ t a, ops i = .claim t a ∧
      checkClaim (latestTaskSnapshots s.board.log) ptAgentId t a = .ok () := by
  unfold stepRead at h
  simp only at h
  split at h
  · rename_i t a hop _
    split at h
    · rename_i hcheck
      rcases claimingAt_move h with h | ⟨rfl, attempt, wt, he⟩
      · exact Or.inl h
      · cases he; exact Or.inr ⟨rfl, t, a, hop, hcheck⟩
    · exact Or.inl (claimingAt_move_ne h rfl)
  · split at h <;> exact Or.inl (claimingAt_move_ne h rfl)
  · split at h <;> exact Or.inl (claimingAt_move_ne h rfl)
  · exact Or.inl (claimingAt_move_ne h rfl)
  · exact Or.inl (claimingAt_move_ne h rfl)
  · exact Or.inl h

end Moves

/-! ## Effects -/

/-- What inserting `row` adds to the log: nothing when its uuid is there already. -/
def Inserts (log : GossipLog τ) (row : GossipRow τ) (added : GossipLog τ) : Prop :=
  added = [row] ∨ added = [] ∧ ∃ old ∈ log, old.eventUuid = row.eventUuid

theorem Inserts.fresh {log added : GossipLog τ} {row : GossipRow τ} (h : Inserts log row added)
    (hfresh : ∀ old ∈ log, old.eventUuid ≠ row.eventUuid) : added = [row] := by
  rcases h with h | ⟨_, old, hold, huuid⟩
  · exact h
  · exact absurd huuid (hfresh old hold)

/-- The row of the claim table that a release frees. -/
def Release.held (r : Release) (c : ClaimRow τ) : Bool :=
  c.taskId = r.taskId && c.agentId = r.agentId

theorem Release.held_iff {r : Release} {c : ClaimRow τ} :
    r.held c ↔ c.taskId = r.taskId ∧ c.agentId = r.agentId := by simp [held]

/-- A claim of a task without a row keeps one row a task. -/
theorem nodup_claim {claims : List (ClaimRow τ)} {t a : String} {now : τ}
    (h : (claims.map (·.taskId)).Nodup) (hfree : ∀ c ∈ claims, c.taskId ≠ t) :
    ((claims ++ [(⟨t, a, now⟩ : ClaimRow τ)]).map (·.taskId)).Nodup := by
  rw [List.map_append, List.nodup_append]
  refine ⟨h, List.nodup_singleton _, ?_⟩
  simp only [List.mem_map, List.map_cons, List.map_nil, List.mem_singleton]
  rintro _ ⟨c, hc, rfl⟩ _ rfl
  exact hfree c hc

theorem exists_held {claims : List (ClaimRow τ)} {r : Release} (h : claims.countP r.held = 1) :
    ∃ c ∈ claims, c.taskId = r.taskId ∧ c.agentId = r.agentId := by
  obtain ⟨c, hc, hheld⟩ := List.countP_pos_iff.mp (h ▸ Nat.one_pos)
  exact ⟨c, hc, Release.held_iff.mp hheld⟩

/-- Freeing a held row leaves the task without a row. -/
theorem free_of_release {claims : List (ClaimRow τ)} (h : (claims.map (·.taskId)).Nodup)
    {r : Release} (hheld : claims.countP r.held = 1) :
    ∀ c ∈ claims.filter fun c => !r.held c, c.taskId ≠ r.taskId := by
  obtain ⟨d, hd, hdt, hda⟩ := exists_held hheld
  intro c hc ht
  simp only [List.mem_filter, Bool.not_eq_true', ← Bool.not_eq_true] at hc
  refine hc.2 (Release.held_iff.mpr ⟨ht, ?_⟩)
  rw [List.inj_on_of_nodup_map h hc.1 hd (ht.trans hdt.symm), hda]

variable [Redaction.UnicodeTables]

theorem insertEvent_inserts (uuid : String) (now : τ) (eventType : String) (payload : Payload)
    (log : GossipLog τ) :
    ∃ added, Inserts log ⟨uuid, now, eventType, durablePayload payload⟩ added ∧
      (insertEvent uuid now eventType payload log).1 = log ++ added := by
  unfold insertEvent
  split
  · rename_i h
    simp only [List.any_eq_true, decide_eq_true_eq] at h
    exact ⟨[], Or.inr ⟨rfl, h⟩, (List.append_nil log).symm⟩
  · exact ⟨_, Or.inl rfl, rfl⟩

inductive Effect (ops : ι → Operation) (s : System τ ι) : Action τ ι → Board τ → Prop
  | same (action : Action τ ι) : Effect ops s action s.board
  /-- A presence pulse is an event of no task. -/
  | pulse {row : GossipRow τ} {action : Action τ ι} (hrow : ∀ t, isEventOf t row = false) :
      Effect ops s action { s.board with log := s.board.log ++ [row] }
  | enqueue {args : QueueAddArgs} {suffix : String} {env : WriteEnv τ} {row : GossipRow τ}
      (hrow : RowDescribes (Redaction.redactText (taskIdOf args suffix)) .enqueue row)
      (hpayload : ∃ name level,
        row.payload = durablePayload (enqueuePayload args (taskIdOf args suffix) name level)) :
      Effect ops s (.add args suffix env) { s.board with log := s.board.log ++ [row] }
  | claim {i : ι} {env : WriteEnv τ} {t a worktree : String} {readAt attempt : ℕ}
      {row : GossipRow τ} {added : GossipLog τ} (hop : ops i = .claim t a)
      (hphase : s.phase i = .claiming readAt attempt worktree) (haccess : env.access = .granted)
      (hfree : ∀ c ∈ s.board.claims, c.taskId ≠ t)
      (hrow : RowDescribes (Redaction.redactText t) (.claim a) row) (huuid : row.eventUuid = env.uuid)
      (hadded : Inserts s.board.log row added)
      (hpayload : row.payload = durablePayload (claimPayload t a worktree)) :
      Effect ops s (.attempt i env)
        { log := s.board.log ++ added, claims := s.board.claims ++ [⟨t, a, env.now⟩] }
  | release {i : ι} {env : WriteEnv τ} {r : Release} {row : GossipRow τ} {added : GossipLog τ}
      (hheld : s.board.claims.countP r.held = 1)
      (hrow : RowDescribes (Redaction.redactText r.taskId) (.release r.agentId r.reason.ending) row)
      (huuid : row.eventUuid = env.uuid) (hadded : Inserts s.board.log row added)
      (hpayload : row.payload = durablePayload r.payload) (haccess : env.access = .granted)
      (hphase : ∃ attempt todo released, s.phase i = .releasing attempt (some r :: todo) released) :
      Effect ops s (.attempt i env)
        { log := s.board.log ++ added, claims := s.board.claims.filter fun c => !r.held c }

variable {ops : ι → Operation}

theorem queueAdd_effect (s : System τ ι) (args : QueueAddArgs) (suffix : String) (env : WriteEnv τ) :
    Effect ops s (.add args suffix env) (queueAdd args suffix env s.board) := by
  unfold queueAdd
  split
  · exact .same _
  · simp only
    split
    · rename_i level _ _
      obtain ⟨added, hadded, hlog⟩ := insertEvent_inserts env.uuid env.now "heartbeat"
        (enqueuePayload args (taskIdOf args suffix) (upperName (PyText.strip args.priority)) level)
        s.board.log
      rw [hlog]
      rcases hadded with rfl | ⟨rfl, _⟩
      · exact .enqueue (enqueuePayload_describes _ _ _ _ _ _) ⟨_, _, rfl⟩
      · rw [List.append_nil]; exact .same _
    · exact .same _

theorem tryAtomicClaim_effect {s : System τ ι} {i : ι} {env : WriteEnv τ} {t a worktree : String}
    {readAt attempt : ℕ} {b : Board τ} (hop : ops i = .claim t a)
    (hphase : s.phase i = .claiming readAt attempt worktree) (haccess : env.access = .granted)
    (h : tryAtomicClaim t a worktree env s.board = some b) :
    Effect ops s (.attempt i env) b := by
  unfold tryAtomicClaim at h
  split at h
  · cases h
  · rename_i hfree
    obtain ⟨added, hadded, hlog⟩ := insertEvent_inserts env.uuid env.now "heartbeat"
      (claimPayload t a worktree) s.board.log
    rw [hlog] at h
    obtain rfl := Option.some.inj h
    exact .claim hop hphase haccess (by simpa using hfree) (claimPayload_describes _ _ _ _ _) rfl
      hadded rfl

theorem releaseClaimWithEvent_effect {s : System τ ι} {i : ι} {env : WriteEnv τ} {r : Release}
    {b : Board τ} {attempt : ℕ} {todo : List (Option Release)} {released : List String}
    (hphase : s.phase i = .releasing attempt (some r :: todo) released)
    (haccess : env.access = .granted) (h : releaseClaimWithEvent r env s.board = some b) :
    Effect ops s (.attempt i env) b := by
  unfold releaseClaimWithEvent at h
  simp only at h
  split at h
  · rename_i hheld
    obtain ⟨added, hadded, hlog⟩ := insertEvent_inserts env.uuid env.now "heartbeat" r.payload
      s.board.log
    rw [hlog] at h
    obtain rfl := Option.some.inj h
    exact .release hheld (r.payload_describes _ _) rfl hadded rfl haccess ⟨_, _, _, hphase⟩
  · cases h

/-! ## Steps -/

variable [DecidableEq ι]

theorem stepAttempt_effect (s : System τ ι) (i : ι) (env : WriteEnv τ) :
    Effect ops s (.attempt i env) (stepAttempt ops s i env).board := by
  unfold stepAttempt
  split
  · rename_i readAt attempt worktree hphase
    split
    · rename_i t a hop
      split
      · exact .same _
      · split <;> exact .same _
      · rename_i haccess
        split
        · rename_i board h
          exact tryAtomicClaim_effect hop hphase haccess h
        · exact .same _
    · exact .same _
  · exact .same _
  · exact .same _
  · rename_i hphase
    split
    · exact .same _
    · split <;> exact .same _
    · rename_i haccess
      split
      · rename_i board h
        exact releaseClaimWithEvent_effect hphase haccess h
      · exact .same _
  · exact .same _

theorem stepAnnounce_effect (s : System τ ι) (i : ι) (worktree : String) (timestamp : Json.Number)
    (env : WriteEnv τ) :
    Effect ops s (.announce i worktree timestamp env)
      (stepAnnounce ops s i worktree timestamp env).board := by
  unfold stepAnnounce
  split
  · rename_i agentId _ _ _
    obtain ⟨added, hadded, hlog⟩ := insertEvent_inserts env.uuid env.now "heartbeat"
      (presencePulsePayload agentId worktree timestamp) s.board.log
    rw [System.move_board, hlog]
    rcases hadded with rfl | ⟨rfl, _⟩
    · exact .pulse fun t => presencePulse_not_event _ _ _ _ _ t
    · rw [List.append_nil]; exact .same _
  · exact .same _
  · exact .same _

variable (ops) in
theorem step_effect (s : System τ ι) (action : Action τ ι) :
    Effect ops s action (step ops s action).board := by
  cases action with
  | add args suffix env => exact queueAdd_effect s args suffix env
  | read i ptAgentId worktree =>
      rw [step, stepRead_board]
      exact .same _
  | attempt i env => exact stepAttempt_effect s i env
  | announce i worktree timestamp env => exact stepAnnounce_effect s i worktree timestamp env
  | abort i =>
      rw [step]
      split <;> exact .same _

variable (ops) in
/-- The log only grows. -/
theorem step_log (s : System τ ι) (action : Action τ ι) :
    ∃ added, (step ops s action).board.log = s.board.log ++ added := by
  have heffect := step_effect ops s action
  generalize (step ops s action).board = b at heffect ⊢
  cases heffect with
  | same => exact ⟨[], (List.append_nil _).symm⟩
  | pulse _ => exact ⟨_, rfl⟩
  | enqueue _ => exact ⟨_, rfl⟩
  | claim _ _ _ _ _ _ _ => exact ⟨_, rfl⟩
  | release _ _ _ _ => exact ⟨_, rfl⟩

/-! ## Claims under way -/

theorem stepAttempt_claimingAt {s : System τ ι} {i j : ι} {env : WriteEnv τ} {readAt : ℕ}
    (h : (stepAttempt ops s j env).ClaimingAt i readAt) : s.ClaimingAt i readAt := by
  unfold stepAttempt at h
  split at h
  · rename_i readAt' attempt worktree hphase
    split at h
    · split at h
      · exact claimingAt_move_ne h rfl
      · split at h
        · rcases claimingAt_move h with h | ⟨rfl, attempt', wt, he⟩
          · exact h
          · cases he; exact ⟨_, _, hphase⟩
        · exact claimingAt_move_ne h rfl
      · split at h <;> exact claimingAt_move_ne (s := { s with board := _ }) h rfl
    · exact h
  · exact claimingAt_move_ne h rfl
  · exact claimingAt_move_ne h rfl
  · split at h
    · exact claimingAt_move_ne h rfl
    · split at h
      · exact claimingAt_move_ne h rfl
      · exact claimingAt_move_ne h (afterRelease_not_claiming _ _ _ _)
    · split at h <;>
        exact claimingAt_move_ne (s := { s with board := _ }) h (afterRelease_not_claiming _ _ _ _)
  · exact h

/-- An operation that stands at its claim stood there before the step, or has just read the log. -/
theorem step_claimingAt {s : System τ ι} {action : Action τ ι} {i : ι} {readAt : ℕ}
    (h : (step ops s action).ClaimingAt i readAt) :
    s.ClaimingAt i readAt ∨ readAt = s.board.log.length ∧ ∃ t a ptAgentId, ops i = .claim t a ∧
      checkClaim (latestTaskSnapshots s.board.log) ptAgentId t a = .ok () := by
  cases action with
  | add args suffix env => exact Or.inl h
  | read j ptAgentId worktree =>
      rcases stepRead_claimingAt h with h | ⟨hread, t, a, hcheck⟩
      · exact Or.inl h
      · exact Or.inr ⟨hread, t, a, ptAgentId, hcheck⟩
  | attempt j env => exact Or.inl (stepAttempt_claimingAt h)
  | announce j worktree timestamp env =>
      simp only [step, stepAnnounce] at h
      split at h
      · exact Or.inl (claimingAt_move_ne (s := { s with board := _ }) h rfl)
      · exact Or.inl (claimingAt_move_ne h rfl)
      · exact Or.inl h
  | abort j =>
      simp only [step] at h
      split at h
      · exact Or.inl h
      · exact Or.inl (claimingAt_move_ne h rfl)

end Perpetua.Queue

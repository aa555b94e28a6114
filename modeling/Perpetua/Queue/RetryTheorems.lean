import Perpetua.Queue.Theorems
import Perpetua.Queue.Lemmas.Retries

/-!
# Retry accounting

The retry count of a task counts its committed failures, and the last one that the limit allows
abandons it, as long as releases and claims act on readings that are still current.
-/

namespace Perpetua.Queue

open GossipBus

variable {τ ι : Type}

/-- The retry count of the task never decreases along the log, at most one failure more than the limit
commits, and exactly that one abandons the task. -/
structure RetriesBounded (log : GossipLog τ) (t : String) : Prop where
  monotone : ∀ m n x y, m ≤ n → foldedRetries (log.take m) t = some x →
    foldedRetries (log.take n) t = some y → x ≤ y
  bounded : ∀ limit, foldedMaxRetries log t = some limit →
    ((failures t log).length : ℤ) ≤ limit + 1
  abandoned : ∀ limit, foldedMaxRetries log t = some limit →
    ∀ (n : ℕ) p, (failures t log)[n]? = some p → (isAbandoned p ↔ (n : ℤ) = limit)

theorem take_inserted {log added : GossipLog τ} {row : GossipRow τ} (hadded : Inserts log row added)
    (n : ℕ) : (log ++ added).take n = log.take n ∨ (log ++ added).take n = log ++ added := by
  have hlen : added.length ≤ 1 := by rcases hadded with rfl | ⟨rfl, -⟩ <;> simp
  by_cases hn : n ≤ log.length
  · exact Or.inl (List.take_append_of_le_length hn)
  · exact Or.inr (List.take_of_length_le (by rw [List.length_append]; omega))

theorem taskEvents_ne_nil {log added : GossipLog τ} {t : String} (h : taskEvents t log ≠ []) :
    taskEvents t (log ++ added) ≠ [] := by
  rw [taskEvents_append]
  exact List.append_ne_nil_of_left_ne_nil h _

theorem foldedRetries_eq {log : GossipLog τ} {t : String} {x : ℤ} (h : t ≠ "" → Tallied log t)
    (hx : foldedRetries log t = some x) : x = (failures t log).length := by
  have ht : t ≠ "" := by
    rintro rfl
    rw [foldedRetries, folded, get?_latestTaskSnapshots_empty] at hx
    cases hx
  by_cases hevents : taskEvents t log = []
  · rw [foldedRetries, folded_eq ht, hevents] at hx
    cases hx
  · exact (Option.some.inj (((h ht).counted hevents).symm.trans hx)).symm

section Retries

variable [Redaction.UnicodeTables]

/-- A release commits only while the task's retry count is the one it read, a claim only while the
task has not been abandoned since it read the snapshots, and no task is added under the id of one
that has failed. -/
def RetriesCurrent (ops : ι → Operation) (s : System τ ι) : Action τ ι → Prop
  | .attempt i env =>
      match ops i, s.phase i with
      | .claim t _, .claiming readAt _ _ =>
          env.access = .granted → (∀ c ∈ s.board.claims, c.taskId ≠ t) →
            Redaction.redactText t = t ∧
              ∀ p ∈ taskEvents t (s.board.log.drop readAt), isAbandoned p = false
      | _, .releasing _ (some r :: _) _ =>
          env.access = .granted → s.board.claims.countP r.held = 1 →
            r.reason.readRetries?.all fun n => foldedRetries s.board.log r.taskId = some n
      | _, _ => True
  | .add args suffix _ => failures (Redaction.redactText (taskIdOf args suffix)) s.board.log = []
  | _ => True

instance (ops : ι → Operation) (s : System τ ι) :
    (action : Action τ ι) → Decidable (RetriesCurrent ops s action)
  | .attempt i env => by
      unfold RetriesCurrent
      dsimp only
      exact match ops i, s.phase i with
        | operation, phase => by split <;> infer_instance
  | .add .. => by unfold RetriesCurrent; infer_instance
  | .read .. => isTrue trivial
  | .announce .. => isTrue trivial
  | .abort _ => isTrue trivial

/-! ## The invariant -/

structure TallyKept (b : Board τ) : Prop where
  rows : ∀ c ∈ b.claims, c.taskId ≠ "" ∧ Redaction.redactText c.taskId = c.taskId ∧
    taskEvents c.taskId b.log ≠ []
  nodup : (b.claims.map (·.taskId)).Nodup
  tallied : ∀ n t, t ≠ "" → Tallied (b.log.take n) t
  free : ∀ t, (failures t b.log).length = 4 → ∀ c ∈ b.claims, c.taskId ≠ t

theorem tallyKept_empty : TallyKept ({} : Board τ) :=
  ⟨nofun, List.nodup_nil, fun _ _ _ => .nil (by simp [taskEvents]), nofun⟩

theorem TallyKept.whole {b : Board τ} (h : TallyKept b) {t : String} (ht : t ≠ "") :
    Tallied b.log t := by
  have := h.tallied b.log.length t ht
  rwa [List.take_length] at this

/-- The tallies of all tasks after an event of one. -/
theorem TallyKept.append {b : Board τ} (h : TallyKept b) {t₀ : String} {e : TaskEvent}
    {row : GossipRow τ} {added : GossipLog τ} (hrow : RowDescribes t₀ e row)
    (hadded : Inserts b.log row added) (hevent : t₀ ≠ "" → Tallied (b.log ++ [row]) t₀) :
    ∀ n t, t ≠ "" → Tallied ((b.log ++ added).take n) t := by
  intro n t ht
  rcases take_inserted hadded n with htake | htake
  · rw [htake]; exact h.tallied n t ht
  · rw [htake]
    rcases hadded with rfl | ⟨rfl, -⟩
    · by_cases htask : t = t₀
      · rw [htask]; exact hevent (htask ▸ ht)
      · exact (h.whole ht).of_taskEvents ht (hrow.taskEvents_ne _ htask)
    · rw [List.append_nil]; exact h.whole ht

/-- A task without a fourth failure before the event, and with one after it, is the event's. -/
theorem eq_of_failures {log added : GossipLog τ} {t t₀ : String} {e : TaskEvent} {row : GossipRow τ}
    (hrow : RowDescribes t₀ e row) (hadded : Inserts log row added)
    (h : failures t (log ++ added) ≠ failures t log) : t = t₀ := by
  by_contra hne
  apply h
  rcases hadded with rfl | ⟨rfl, -⟩
  · rw [failures, hrow.taskEvents_ne _ hne, failures]
  · rw [List.append_nil]

theorem TallyKept.enqueue {b : Board τ} (h : TallyKept b) {args : QueueAddArgs} {suffix : String}
    {row : GossipRow τ} (hnew : failures (Redaction.redactText (taskIdOf args suffix)) b.log = [])
    (hrow : RowDescribes (Redaction.redactText (taskIdOf args suffix)) .enqueue row)
    (hpayload : ∃ name level,
      row.payload = durablePayload (enqueuePayload args (taskIdOf args suffix) name level)) :
    TallyKept { b with log := b.log ++ [row] } := by
  obtain ⟨name, level, hpayload⟩ := hpayload
  have hfailure : isFailure row.payload = false :=
    not_isFailure hrow.describes.field?_kind (by decide)
  refine ⟨fun c hc => ?_, h.nodup, h.append hrow (Or.inl rfl) fun ht => ?_, fun t hfour => ?_⟩
  · obtain ⟨hne, hclean, hevents⟩ := h.rows c hc
    exact ⟨hne, hclean, taskEvents_ne_nil hevents⟩
  · refine (h.whole ht).concat ht (hrow.taskEvents _) hrow.describes.keys (by simp [hnew]) ?_
      (by simp [hfailure]) (by simp [isFailure] at hfailure; simp [hfailure.1])
    rw [hpayload] at hfailure ⊢
    rw [(get?_enqueue ..).2.1, hfailure, hnew]
    rfl
  · apply h.free t
    by_cases hsame : failures t (b.log ++ [row]) = failures t b.log
    · rwa [hsame] at hfour
    · rw [eq_of_failures hrow (Or.inl rfl) hsame, failures_concat (hrow.taskEvents _), hfailure,
        hnew] at hfour
      cases hfour

/-- A claim that may commit is on a task that has not been abandoned. -/
theorem TallyKept.unabandoned {ops : ι → Operation} {s : System τ ι} (h : TallyKept s.board)
    (hchecked : Checked ops s) {i : ι} {t a : String} {readAt : ℕ} (hop : ops i = .claim t a)
    (hclaiming : s.ClaimingAt i readAt)
    (hsince : ∀ p ∈ taskEvents t (s.board.log.drop readAt), isAbandoned p = false) :
    t ≠ "" ∧ taskEvents t s.board.log ≠ [] ∧ (failures t s.board.log).length ≤ 3 := by
  obtain ⟨ht, -, -, hopen⟩ := (hchecked.reads i readAt hclaiming).2 t a hop
  obtain ⟨ptAgentId, hcheck⟩ := (hchecked i readAt hclaiming).2 t a hop
  obtain ⟨task, hget, -⟩ := checkClaim_dependencies hcheck
  have hlog := taskEvents_append t (s.board.log.take readAt) (s.board.log.drop readAt)
  rw [List.take_append_drop] at hlog
  refine ⟨ht, ?_, ?_⟩
  · rw [get?_latestTaskSnapshots ht] at hget
    rw [hlog]
    refine List.append_ne_nil_of_left_ne_nil (fun hnil => ?_) _
    rw [if_pos hnil] at hget
    cases hget
  · by_contra hlen
    have hfour : (failures t s.board.log).length = 4 := by
      have := (h.whole ht).bounded
      omega
    -- the fourth failure abandons the task, and the claim has read it
    have hmem := List.getElem_mem (show 3 < (failures t s.board.log).length by omega)
    have habandoned := ((h.whole ht).abandoned 3 _ (List.getElem?_eq_getElem (by omega))).mpr rfl
    generalize (failures t s.board.log)[3] = p at hmem habandoned
    obtain ⟨hevent, hfailure⟩ := failures_subset hmem
    rw [hlog] at hevent
    rcases List.mem_append.mp hevent with hread | hafter
    · have htally := h.tallied readAt t ht
      obtain ⟨n, hn, hget⟩ := List.mem_iff_getElem.mp (List.mem_filter.mpr ⟨hread, hfailure⟩)
      have hthree := (htally.abandoned n p (hget ▸ List.getElem?_eq_getElem hn)).mp habandoned
      have := htally.bounded
      exact hopen (htally.final (by rw [failures] at this ⊢; omega))
    · rw [hsince p hafter] at habandoned
      cases habandoned

theorem TallyKept.claim {b : Board τ} (h : TallyKept b) {t a worktree : String} {now : τ}
    {row : GossipRow τ} {added : GossipLog τ} (ht : t ≠ "") (hclean : Redaction.redactText t = t)
    (hevents : taskEvents t b.log ≠ []) (hlen : (failures t b.log).length ≤ 3)
    (hfree : ∀ c ∈ b.claims, c.taskId ≠ t) (hrow : RowDescribes t (.claim a) row)
    (hpayload : row.payload = durablePayload (claimPayload t a worktree))
    (hadded : Inserts b.log row added) :
    TallyKept { log := b.log ++ added, claims := b.claims ++ [⟨t, a, now⟩] } := by
  have hfailure : isFailure row.payload = false :=
    not_isFailure hrow.describes.field?_kind (by simp [TaskEvent.kind])
  have hsame : ∀ t', failures t' (b.log ++ added) = failures t' b.log := by
    intro t'
    rcases hadded with rfl | ⟨rfl, -⟩
    · by_cases htask : t' = t
      · rw [htask, failures_concat (hrow.taskEvents _), hfailure]
        exact List.append_nil _
      · rw [failures, hrow.taskEvents_ne _ htask, failures]
    · rw [List.append_nil]
  refine ⟨fun c hc => ?_, nodup_claim h.nodup hfree, h.append hrow hadded fun _ => ?_,
    fun t' hfour c hc => ?_⟩
  · rcases List.mem_append.mp hc with hc | hc
    · obtain ⟨hne, hcleanRow, hold⟩ := h.rows c hc
      exact ⟨hne, hcleanRow, taskEvents_ne_nil hold⟩
    · rw [List.mem_singleton.mp hc]
      exact ⟨ht, hclean, taskEvents_ne_nil hevents⟩
  · refine (h.whole ht).concat ht (hrow.taskEvents _) hrow.describes.keys hlen ?_
      (by simp [hfailure]) (by simp [isFailure] at hfailure; simp [hfailure.1])
    have hcounted := (h.whole ht).counted hevents
    rw [foldedRetries] at hcounted
    rw [hfailure, hpayload, get?_durable_none (by decide) rfl, Option.none_or, hcounted]
    simp
  · rw [hsame] at hfour
    rcases List.mem_append.mp hc with hc | hc
    · exact h.free t' hfour c hc
    · rw [List.mem_singleton.mp hc]
      rintro rfl
      dsimp only at hfour
      omega

theorem TallyKept.release {b : Board τ} (h : TallyKept b) {r : Release} {row : GossipRow τ}
    {added : GossipLog τ} (hheld : b.claims.countP r.held = 1) (hcounted : r.reason.Counted)
    (hcurrent : r.reason.readRetries?.all fun n => foldedRetries b.log r.taskId = some n)
    (hrow : RowDescribes (Redaction.redactText r.taskId) (.release r.agentId r.reason.ending) row)
    (hpayload : row.payload = durablePayload r.payload) (hadded : Inserts b.log row added) :
    TallyKept { log := b.log ++ added, claims := b.claims.filter fun c => !r.held c } := by
  obtain ⟨c, hc, hct, -⟩ := exists_held hheld
  obtain ⟨ht, hclean, hevents⟩ := h.rows c hc
  rw [hct] at ht hclean hevents
  rw [hclean] at hrow
  have htally := h.whole ht
  have hlen : (failures r.taskId b.log).length ≤ 3 := by
    have hne : (failures r.taskId b.log).length ≠ 4 := fun hfour => h.free _ hfour c hc hct
    have := htally.bounded
    omega
  have hretries := htally.counted hevents
  refine ⟨fun d hd => ?_, h.nodup.sublist (List.filter_sublist.map _),
    h.append hrow hadded fun _ => ?_, fun t hfour d hd => ?_⟩
  · obtain ⟨hne, hcleanRow, hold⟩ := h.rows d (List.mem_of_mem_filter hd)
    exact ⟨hne, hcleanRow, taskEvents_ne_nil hold⟩
  · refine htally.concat ht (hrow.taskEvents _) hrow.describes.keys hlen ?_ ?_ ?_
    · rw [hpayload, get?_release_retries, isFailure_release]
      rw [foldedRetries] at hretries hcurrent
      obtain ⟨taskId, agentId, reason⟩ := r
      cases reason with
      | complete _ => simpa [Reason.retryCount?, Reason.isFailure] using hretries
      | agentDead n _ =>
          simpa [Reason.retryCount?, Reason.isFailure, asInt?, Reason.readRetries?, hretries,
            eq_comm] using hcurrent
      | fail n _ _ | abandon n _ _ =>
          have hn : ((failures taskId b.log).length : ℤ) = n - 1 := by
            simpa [Reason.readRetries?, hretries] using hcurrent
          simp [Reason.retryCount?, Reason.isFailure, asInt?, hn]
    · rw [hpayload, isFailure_release, isAbandoned_release]
      intro hfail
      obtain ⟨n, hstored, hread⟩ := Reason.retryCount_of_isFailure hfail
      rw [hcounted.fails hfail n hstored]
      have hn : ((failures r.taskId b.log).length : ℤ) = n - 1 := by
        simpa [hread, hretries] using hcurrent
      omega
    · rw [hpayload, isAbandoned_release]
      intro habandon
      have hstatus := hrow.describes.status
      rw [hpayload, Reason.ending_of_isAbandon habandon] at hstatus
      exact hstatus
  · by_cases hsame : failures t (b.log ++ added) = failures t b.log
    · rw [hsame] at hfour
      exact h.free t hfour d (List.mem_of_mem_filter hd)
    · rw [eq_of_failures hrow hadded hsame]
      exact free_of_release h.nodup hheld d hd

theorem TallyKept.effect {ops : ι → Operation} {s : System τ ι} {action : Action τ ι} {b : Board τ}
    (h : TallyKept s.board) (hchecked : Checked ops s) (hpending : PendingCounted s)
    (hcurrent : RetriesCurrent ops s action) (heffect : Effect ops s action b) : TallyKept b := by
  cases heffect with
  | same => exact h
  | @pulse row _ hrow =>
      have hlog : ∀ t, taskEvents t (s.board.log ++ [row]) = taskEvents t s.board.log := fun t => by
        rw [taskEvents_concat, hrow, if_neg Bool.false_ne_true]
      refine ⟨fun c hc => ?_, h.nodup, fun n t ht => ?_, fun t hfour => ?_⟩
      · rw [hlog]; exact h.rows c hc
      · rcases take_inserted (Or.inl rfl : Inserts s.board.log row [row]) n with htake | htake
        · rw [htake]; exact h.tallied n t ht
        · rw [htake]; exact (h.whole ht).of_taskEvents ht (hlog t)
      · rw [failures, hlog] at hfour
        exact h.free t hfour
  | enqueue hrow hpayload => exact h.enqueue hcurrent hrow hpayload
  | claim hop hphase haccess hfree hrow _ hadded hpayload =>
      simp only [RetriesCurrent, hop, hphase] at hcurrent
      obtain ⟨hclean, hsince⟩ := hcurrent haccess hfree
      obtain ⟨ht, hevents, hlen⟩ := h.unabandoned hchecked hop ⟨_, _, hphase⟩ hsince
      rw [hclean] at hrow
      exact h.claim ht hclean hevents hlen hfree hrow hpayload hadded
  | @release i _ r _ _ hheld hrow _ hadded hpayload haccess hphase =>
      obtain ⟨attempt, todo, released, hphase⟩ := hphase
      have hcurrent := by simpa only [RetriesCurrent, hphase] using hcurrent
      exact h.release hheld (hpending i _ _ _ hphase r List.mem_cons_self) (hcurrent haccess hheld)
        hrow hpayload hadded

theorem TallyKept.retriesBounded {b : Board τ} (h : TallyKept b) (hmax : MaxThree b.log) (t : String) :
    RetriesBounded b.log t := by
  have hlimit : ∀ limit, foldedMaxRetries b.log t = some limit → t ≠ "" ∧ limit = 3 := by
    intro limit hfolded
    obtain ⟨v, hv, hlimit⟩ := Option.bind_eq_some_iff.mp hfolded
    rw [hmax.folded hv] at hlimit
    refine ⟨?_, (Option.some.inj hlimit).symm⟩
    rintro rfl
    rw [folded, get?_latestTaskSnapshots_empty] at hv
    cases hv
  refine ⟨fun m n x y hmn hx hy => ?_, fun limit hfolded => ?_, fun limit hfolded n p hp => ?_⟩
  · rw [foldedRetries_eq (h.tallied m t) hx, foldedRetries_eq (h.tallied n t) hy]
    have hle := (List.take_append_drop m (b.log.take n)).symm
    rw [List.take_take, Nat.min_eq_left hmn] at hle
    have : (failures t (b.log.take m)).length ≤ (failures t (b.log.take n)).length := by
      rw [hle, failures, failures, taskEvents_append, List.filter_append, List.length_append]
      omega
    exact_mod_cast this
  · obtain ⟨ht, rfl⟩ := hlimit limit hfolded
    have := (h.whole ht).bounded
    omega
  · obtain ⟨ht, rfl⟩ := hlimit limit hfolded
    rw [(h.whole ht).abandoned n p hp]
    omega

/-! ## Runs -/

/-- In a run whose releases and claims act on current readings, retry accounting is monotone and
bounded. -/
theorem retriesBounded_run [DecidableEq ι] (ops : ι → Operation) (steps : List (Action τ ι))
    (h : Machine.Along (step ops) (RetriesCurrent ops) {} steps) (t : String) :
    RetriesBounded (runSteps ops steps).board.log t := by
  have hinv : Checked ops (runSteps ops steps) ∧ PendingCounted (runSteps ops steps) ∧
      MaxThree (runSteps ops steps).board.log ∧ TallyKept (runSteps ops steps).board :=
    h.invariant (I := fun s => Checked ops s ∧ PendingCounted s ∧ MaxThree s.board.log ∧
        TallyKept s.board)
      (fun s action ⟨hchecked, hpending, hmax, htally⟩ hcurrent =>
        ⟨hchecked.step action, hpending.step hmax action,
          hmax.effect hpending (step_effect ops s action),
          htally.effect hchecked hpending hcurrent (step_effect ops s action)⟩)
      ⟨checked_run ops [], nofun, nofun, tallyKept_empty⟩
  exact hinv.2.2.2.retriesBounded hinv.2.2.1 t

end Retries

section SampleRuns

local instance retryTables : Redaction.UnicodeTables := asciiTables

/-- An agent claims, fails and claims again while a cleanup takes it for dead. -/
def cleanupOps : Fin 4 → Operation
  | 0 => .claim "p-n-0" "A"
  | 1 => .fail "p-n-0" "A" "again"
  | 2 => .claim "p-n-0" "A"
  | 3 => .cleanup ["A"]

def addSample : Action ℕ (Fin 4) :=
  .add { taskName := "n", phase := "p", priority := "high", notes := "" } "0" ⟨.granted, "u0", 0⟩

def attemptSample (i : Fin 4) (uuid : String) : Action ℕ (Fin 4) := .attempt i ⟨.granted, uuid, 0⟩

theorem retriesBounded_cleanup :
    RetriesBounded (runSteps cleanupOps [addSample, .read 0 none "w", attemptSample 0 "u1",
      .read 1 none "w", attemptSample 1 "u2", .read 2 none "w", attemptSample 2 "u3",
      .read 3 none "w", .read 3 none "w", attemptSample 3 "u4"]).board.log "p-n-0" :=
  retriesBounded_run cleanupOps _ (by decide +kernel) "p-n-0"

/-- The cleanup reads the counter before the failure and writes it back after the next claim. -/
def staleCleanup : List (Action ℕ (Fin 4)) :=
  [addSample, .read 0 none "w", attemptSample 0 "u1", .read 3 none "w", .read 3 none "w",
    .read 1 none "w", attemptSample 1 "u2", .read 2 none "w", attemptSample 2 "u3",
    attemptSample 3 "u4"]

theorem not_retriesBounded_staleCleanup :
    ¬ RetriesBounded (runSteps cleanupOps staleCleanup).board.log "p-n-0" := by
  intro h
  have hdecreased := h.monotone 3 5 1 0 (by decide) (by decide +kernel) (by decide +kernel)
  exact absurd hdecreased (by decide)

end SampleRuns

end Perpetua.Queue

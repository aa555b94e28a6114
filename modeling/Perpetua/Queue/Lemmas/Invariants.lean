import Perpetua.Queue.Lemmas.Effects

/-!
# Invariants of the queue

`Checked` holds of every run. `Agrees`, that the claim rows are the claimed tasks of the histories,
holds as long as uuids are fresh and no task is added under the id of a claimed one. `Settled`, that
nothing follows the end of a task, holds as long as no claim acts on a reading older than that end.
-/

namespace Perpetua.Queue

open GossipBus

variable {τ ι : Type}

/-! ## Readings -/

theorem get?_latestTaskSnapshots_empty (log : GossipLog τ) :
    Entries.get? (latestTaskSnapshots log) "" = none := by
  have hfold : ∀ (rows : GossipLog τ) (snapshots : Snapshots), Entries.get? snapshots "" = none →
      Entries.get? (rows.foldl foldEvent snapshots) "" = none := by
    intro rows
    induction rows with
    | nil => exact fun _ h => h
    | cons row rows ih =>
        intro snapshots h
        refine ih _ ?_
        unfold foldEvent
        split
        · exact h
        · rename_i t _
          split
          · exact h
          · rename_i ht
            rw [Entries.get?_set, if_neg ht, h]
  exact hfold _ [] rfl

/-- A status that lets a claim through. -/
def OpenStatus (status : Option String) : Prop :=
  status ≠ some "claimed" ∧ status ≠ some "completed" ∧ status ≠ some "abandoned"

theorem checkClaim_ok {log : GossipLog τ} {ptAgentId : Option String} {t a : String}
    (h : checkClaim (latestTaskSnapshots log) ptAgentId t a = .ok ()) :
    t ≠ "" ∧ OpenStatus (foldedStatus log t) := by
  unfold checkClaim at h
  split at h
  · cases h
  · cases h
  · rename_i task hget
    refine ⟨?_, ?_⟩
    · rintro rfl
      rw [get?_latestTaskSnapshots_empty] at hget
      cases hget
    · rw [foldedStatus, hget, Option.bind_some]
      simp only at h
      split at h
      · cases h
      split at h
      · cases h
      split at h
      · cases h
      exact ⟨by assumption, by assumption, by assumption⟩

theorem checkClaim_dependencies {snapshots : Snapshots} {ptAgentId : Option String} {t a : String}
    (h : checkClaim snapshots ptAgentId t a = .ok ()) :
    ∃ task, Entries.get? snapshots t = some task ∧ checkDependencies snapshots task = .ok () := by
  unfold checkClaim at h
  split at h
  · cases h
  · cases h
  · rename_i task _ hget
    refine ⟨task, hget, ?_⟩
    simp only at h
    split at h
    · cases h
    split at h
    · cases h
    split at h
    · cases h
    cases hreservation : checkReservation task ptAgentId a with
    | error why => rw [hreservation] at h; cases h
    | ok _ => rw [hreservation] at h; exact h

/-- A claim that has passed its checks passed them on a log that has only grown since. -/
def Checked (ops : ι → Operation) (s : System τ ι) : Prop :=
  ∀ i readAt, s.ClaimingAt i readAt → readAt ≤ s.board.log.length ∧
    ∀ t a, ops i = .claim t a → ∃ ptAgentId,
      checkClaim (latestTaskSnapshots (s.board.log.take readAt)) ptAgentId t a = .ok ()

/-- A claim that has passed its checks read its task as open in a log that has only grown. -/
def Reads (ops : ι → Operation) (s : System τ ι) : Prop :=
  ∀ i readAt, s.ClaimingAt i readAt → readAt ≤ s.board.log.length ∧
    ∀ t a, ops i = .claim t a → t ≠ "" ∧ OpenStatus (foldedStatus (s.board.log.take readAt) t)

theorem Checked.reads {ops : ι → Operation} {s : System τ ι} (h : Checked ops s) : Reads ops s := by
  intro i readAt hclaiming
  obtain ⟨hle, hchecked⟩ := h i readAt hclaiming
  refine ⟨hle, fun t a hop => ?_⟩
  obtain ⟨_, hcheck⟩ := hchecked t a hop
  exact checkClaim_ok hcheck

variable [Redaction.UnicodeTables] {ops : ι → Operation}

theorem Checked.step [DecidableEq ι] {s : System τ ι} (h : Checked ops s) (action : Action τ ι) :
    Checked ops (step ops s action) := by
  intro i readAt hclaiming
  obtain ⟨added, hlog⟩ := step_log ops s action
  rw [hlog]
  rcases step_claimingAt hclaiming with hclaiming | ⟨rfl, t, a, ptAgentId, hop, hcheck⟩
  · obtain ⟨hle, hread⟩ := h i readAt hclaiming
    refine ⟨by rw [List.length_append]; omega, ?_⟩
    rwa [List.take_append_of_le_length hle]
  · refine ⟨by rw [List.length_append]; omega, fun t' a' hop' => ⟨ptAgentId, ?_⟩⟩
    rw [hop, Operation.claim.injEq] at hop'
    rw [List.take_append_of_le_length le_rfl, List.take_length, ← hop'.1, ← hop'.2]
    exact hcheck

theorem checked_run [DecidableEq ι] (ops : ι → Operation) (steps : List (Action τ ι)) :
    Checked ops (runSteps ops steps) :=
  Machine.run_invariant (fun _ action h => h.step action) (fun _ _ h => by
    obtain ⟨_, _, h⟩ := h
    cases h) steps

/-! ## Claim rows and histories -/

/-- The claim table has the row of `a` for `t`. -/
def Board.Holds (b : Board τ) (t a : String) : Prop := ∃ c ∈ b.claims, c.taskId = t ∧ c.agentId = a

structure CleanRow (c : ClaimRow τ) : Prop where
  nonempty : c.taskId ≠ ""
  taskId : Redaction.redactText c.taskId = c.taskId
  agentId : Redaction.redactText c.agentId = c.agentId

/-- The log tells the history of a task, and the claim table holds its claimant. -/
structure Recounts (b : Board τ) (t : String) (hist : List (TaskEvent × Payload)) (s : TaskState) :
    Prop where
  log : hist.map Prod.snd = taskEvents t b.log
  tells : Tells hist s
  clean : ∀ a p, (TaskEvent.claim a, p) ∈ hist → Redaction.redactText a = a
  holds : ∀ a, b.Holds t a ↔ s = .claimed a

structure Agrees (b : Board τ) : Prop where
  rows : ∀ c ∈ b.claims, CleanRow c
  nodup : (b.claims.map (·.taskId)).Nodup
  histories : ∀ t, ∃ hist s, Recounts b t hist s

theorem agrees_empty : Agrees ({} : Board τ) :=
  ⟨nofun, List.nodup_nil, fun _ => ⟨[], .absent, rfl, .nil, nofun, fun _ => ⟨nofun, nofun⟩⟩⟩

theorem Recounts.concat {b b' : Board τ} {t : String} {hist : List (TaskEvent × Payload)}
    {s s' : TaskState} {e : TaskEvent} {row : GossipRow τ} (h : Recounts b t hist s)
    (hrow : RowDescribes t e row) (hnext : s.next e = some s') (hlog : b'.log = b.log ++ [row])
    (hclean : ∀ a, e = .claim a → Redaction.redactText a = a)
    (hholds : ∀ a, b'.Holds t a ↔ s' = .claimed a) :
    Recounts b' t (hist ++ [(e, row.payload)]) s' where
  log := by rw [hlog, hrow.taskEvents, ← h.log, List.map_append]; rfl
  tells := h.tells.concat hrow.describes hnext
  clean := fun a p hmem => by
    rcases List.mem_append.mp hmem with hmem | hmem
    · exact h.clean a p hmem
    · exact hclean a (Prod.ext_iff.mp (List.mem_singleton.mp hmem)).1.symm
  holds := hholds

/-- A row of another task leaves the history of `t` as it is. -/
theorem Recounts.other {b b' : Board τ} {t t' : String} {hist : List (TaskEvent × Payload)}
    {s : TaskState} {e : TaskEvent} {row : GossipRow τ} (h : Recounts b t hist s)
    (hrow : RowDescribes t' e row) (hne : t ≠ t') (hlog : b'.log = b.log ++ [row])
    (hholds : ∀ a, b'.Holds t a ↔ b.Holds t a) : Recounts b' t hist s :=
  ⟨by rw [hlog, hrow.taskEvents_ne _ hne, h.log], h.tells, h.clean,
    fun a => (hholds a).trans (h.holds a)⟩

theorem Agrees.unclaimed {b : Board τ} {t : String} {hist : List (TaskEvent × Payload)}
    {s : TaskState} (h : Recounts b t hist s) (hfree : ∀ c ∈ b.claims, c.taskId ≠ t) (a : String) :
    s ≠ .claimed a := by
  intro hs
  obtain ⟨c, hc, hct, -⟩ := (h.holds a).mpr hs
  exact hfree c hc hct

theorem Agrees.enqueue {b : Board τ} (h : Agrees b) {t : String} {row : GossipRow τ}
    (hrow : RowDescribes t .enqueue row) (hfree : ∀ c ∈ b.claims, c.taskId ≠ t) :
    Agrees { b with log := b.log ++ [row] } := by
  refine ⟨h.rows, h.nodup, fun t' => ?_⟩
  obtain ⟨hist, s, hrec⟩ := h.histories t'
  by_cases ht : t' = t
  · subst ht
    have hs := Agrees.unclaimed hrec hfree
    have hnext : s.next .enqueue = some .queued := by
      cases s with
      | claimed a => exact absurd rfl (hs a)
      | _ => rfl
    refine ⟨_, _, hrec.concat hrow hnext rfl nofun fun a => ⟨fun hheld => ?_, nofun⟩⟩
    exact absurd ((hrec.holds a).mp hheld) (hs a)
  · exact ⟨hist, s, hrec.other hrow ht rfl fun a => Iff.rfl⟩

theorem Agrees.claim {b : Board τ} (h : Agrees b) {t a : String} {now : τ} {row : GossipRow τ}
    (hrow : RowDescribes t (.claim a) row) (hfree : ∀ c ∈ b.claims, c.taskId ≠ t)
    (hclean : CleanRow (⟨t, a, now⟩ : ClaimRow τ)) :
    Agrees { log := b.log ++ [row], claims := b.claims ++ [⟨t, a, now⟩] } := by
  refine ⟨fun c hc => ?_, ?_, fun t' => ?_⟩
  · rcases List.mem_append.mp hc with hc | hc
    · exact h.rows c hc
    · rw [List.mem_singleton.mp hc]; exact hclean
  · exact nodup_claim h.nodup hfree
  · obtain ⟨hist, s, hrec⟩ := h.histories t'
    by_cases ht : t' = t
    · subst ht
      have hs := Agrees.unclaimed hrec hfree
      have hnext : s.next (.claim a) = some (.claimed a) := by
        cases s with
        | claimed a => exact absurd rfl (hs a)
        | _ => rfl
      refine ⟨_, _, hrec.concat hrow hnext rfl (fun x hx => ?_) fun x => ⟨?_, ?_⟩⟩
      · cases hx; exact hclean.agentId
      · rintro ⟨c, hc, hct, rfl⟩
        rcases List.mem_append.mp hc with hc | hc
        · exact absurd hct (hfree c hc)
        · rw [List.mem_singleton.mp hc]
      · intro hx
        cases hx
        exact ⟨_, List.mem_append_right _ List.mem_cons_self, rfl, rfl⟩
    · refine ⟨hist, s, hrec.other hrow ht rfl fun x => ⟨?_, ?_⟩⟩
      · rintro ⟨c, hc, hct, hca⟩
        rcases List.mem_append.mp hc with hc | hc
        · exact ⟨c, hc, hct, hca⟩
        · rw [List.mem_singleton.mp hc] at hct; exact absurd hct.symm ht
      · rintro ⟨c, hc, hca⟩
        exact ⟨c, List.mem_append_left _ hc, hca⟩

theorem Agrees.release {b : Board τ} (h : Agrees b) {r : Release} {row : GossipRow τ}
    (hrow : RowDescribes r.taskId (.release r.agentId r.reason.ending) row)
    (hheld : b.claims.countP r.held = 1) :
    Agrees { log := b.log ++ [row], claims := b.claims.filter fun c => !r.held c } := by
  refine ⟨fun c hc => h.rows c (List.mem_of_mem_filter hc),
    h.nodup.sublist (List.filter_sublist.map _), fun t => ?_⟩
  obtain ⟨hist, s, hrec⟩ := h.histories t
  by_cases ht : t = r.taskId
  · subst ht
    obtain rfl := (hrec.holds r.agentId).mp (exists_held hheld)
    refine ⟨_, _, hrec.concat hrow (if_pos rfl) rfl nofun fun a => ⟨?_, fun hs => ?_⟩⟩
    · rintro ⟨c, hc, hct, -⟩
      exact absurd hct (free_of_release h.nodup hheld c hc)
    · cases hr : r.reason.ending <;> (rw [hr] at hs; cases hs)
  · refine ⟨hist, s, hrec.other hrow ht rfl fun a => ⟨?_, ?_⟩⟩
    · rintro ⟨c, hc, hca⟩
      exact ⟨c, List.mem_of_mem_filter hc, hca⟩
    · rintro ⟨c, hc, hct, hca⟩
      refine ⟨c, List.mem_filter.mpr ⟨hc, ?_⟩, hct, hca⟩
      simp only [Bool.not_eq_true', ← Bool.not_eq_true, Release.held_iff]
      exact fun hheld => ht (hct.symm.trans hheld.1)

/-! ### Steps -/

/-- A write draws an event uuid that the log does not have. -/
def FreshUuid (s : System τ ι) : Action τ ι → Prop
  | .add _ _ env | .attempt _ env | .announce _ _ _ env =>
      ∀ old ∈ s.board.log, old.eventUuid ≠ env.uuid
  | _ => True

/-- A task is not added under the id of a claimed one. -/
def AddsUnclaimed (s : System τ ι) : Action τ ι → Prop
  | .add args suffix _ => ∀ c ∈ s.board.claims, c.taskId ≠ Redaction.redactText (taskIdOf args suffix)
  | _ => True

instance (s : System τ ι) : ∀ action : Action τ ι, Decidable (FreshUuid s action)
  | .add _ _ env | .attempt _ env | .announce _ _ _ env =>
      inferInstanceAs (Decidable (∀ old ∈ s.board.log, old.eventUuid ≠ env.uuid))
  | .read .. | .abort _ => isTrue trivial

instance (s : System τ ι) : ∀ action : Action τ ι, Decidable (AddsUnclaimed s action)
  | .add args suffix _ => inferInstanceAs (Decidable
      (∀ c ∈ s.board.claims, c.taskId ≠ Redaction.redactText (taskIdOf args suffix)))
  | .read .. | .attempt .. | .announce .. | .abort _ => isTrue trivial

/-- The ids of the claims are ones that redaction leaves alone. -/
def CleanIds (ops : ι → Operation) : Prop :=
  ∀ i t a, ops i = .claim t a → Redaction.redactText t = t ∧ Redaction.redactText a = a

theorem Agrees.effect {s : System τ ι} {action : Action τ ι} {b : Board τ} (hops : CleanIds ops)
    (hreads : Reads ops s) (h : Agrees s.board) (huuid : FreshUuid s action)
    (hadd : AddsUnclaimed s action) (heffect : Effect ops s action b) : Agrees b := by
  cases heffect with
  | same => exact h
  | pulse hrow =>
      refine ⟨h.rows, h.nodup, fun t => ?_⟩
      obtain ⟨hist, st, hrec⟩ := h.histories t
      refine ⟨hist, st, ?_, hrec.tells, hrec.clean, hrec.holds⟩
      rw [taskEvents_concat, hrow, if_neg Bool.false_ne_true, hrec.log]
  | enqueue hrow => exact h.enqueue hrow hadd
  | claim hop hphase _ hfree hrow hrowUuid hadded =>
      obtain ⟨ht, ha⟩ := hops _ _ _ hop
      rw [hadded.fresh fun old hold => hrowUuid ▸ huuid old hold]
      rw [ht] at hrow
      exact h.claim hrow hfree ⟨((hreads _ _ ⟨_, _, hphase⟩).2 _ _ hop).1, ht, ha⟩
  | release hheld hrow hrowUuid hadded =>
      obtain ⟨c, hc, hct, -⟩ := exists_held hheld
      rw [hadded.fresh fun old hold => hrowUuid ▸ huuid old hold]
      rw [← hct, (h.rows c hc).taskId, hct] at hrow
      exact h.release hrow hheld

/-! ## Ended tasks -/

/-- The status in which a payload ends its task, for good. -/
def endStatus? (p : Payload) : Option String :=
  if field? p "kind" = some "task_complete" then some "completed"
  else if field? p "kind" = some "task_abandoned" then some "abandoned"
  else none

/-- A terminal event is the last one of its task, and the task has no claim row. -/
structure Settled (b : Board τ) : Prop where
  rows : ∀ c ∈ b.claims, c.taskId ≠ "" ∧ Redaction.redactText c.taskId = c.taskId
  nodup : (b.claims.map (·.taskId)).Nodup
  last : ∀ t before p after st, taskEvents t b.log = before ++ p :: after → endStatus? p = some st →
    after = [] ∧ t ≠ "" ∧ (p.map Prod.fst).Nodup ∧ Entries.get? p "status" = some (.str st)
  free : ∀ t, ∀ p ∈ taskEvents t b.log, endStatus? p ≠ none → ∀ c ∈ b.claims, c.taskId ≠ t

theorem settled_empty : Settled ({} : Board τ) :=
  ⟨nofun, List.nodup_nil, fun _ _ _ _ _ h => (List.append_ne_nil_of_right_ne_nil _ (by simp) h.symm).elim,
    nofun⟩

theorem Describes.endStatus {e : TaskEvent} {p : Payload} {st : String} (h : Describes e p)
    (hst : endStatus? p = some st) :
    Entries.get? p "status" = some (.str st) ∧ ∃ a ending, e = .release a ending := by
  have hkind : field? p "kind" = some e.kind := by rw [field?, h.kind]; rfl
  rw [endStatus?, hkind] at hst
  rw [h.status]
  cases e with
  | enqueue => simp [TaskEvent.kind] at hst
  | claim a => simp [TaskEvent.kind] at hst
  | release a ending =>
      cases ending with
      | failed => simp [TaskEvent.kind] at hst
      | completed => exact ⟨by simpa [TaskEvent.kind, TaskEvent.status] using hst, a, _, rfl⟩
      | abandoned => exact ⟨by simpa [TaskEvent.kind, TaskEvent.status] using hst, a, _, rfl⟩

theorem Settled.foldedStatus {b : Board τ} (h : Settled b) {t st : String} {p : Payload}
    (hp : p ∈ taskEvents t b.log) (hst : endStatus? p = some st) :
    Queue.foldedStatus b.log t = some st := by
  obtain ⟨before, after, hlog⟩ := List.append_of_mem hp
  obtain ⟨rfl, ht, hkeys, hstatus⟩ := h.last t before p after st hlog hst
  exact foldedStatus_of_last ht hlog hkeys hstatus

/-- What is settled was settled in every earlier log. -/
theorem Settled.take {b : Board τ} (h : Settled b) (n : ℕ) :
    Settled (⟨b.log.take n, []⟩ : Board τ) := by
  refine ⟨nofun, List.nodup_nil, fun t before p after st hlog hst => ?_, fun _ _ _ _ => nofun⟩
  have hall := taskEvents_append t (b.log.take n) (b.log.drop n)
  rw [List.take_append_drop, hlog, List.append_assoc, List.cons_append] at hall
  obtain ⟨hnil, hrest⟩ := h.last t before p _ st hall hst
  exact ⟨(List.append_eq_nil_iff.mp hnil).1, hrest⟩

/-- A new event of a task that has not ended keeps every terminal event last. -/
theorem Settled.last_append {b : Board τ} (h : Settled b) {t : String} {e : TaskEvent}
    {row : GossipRow τ} {added : GossipLog τ} (hrow : RowDescribes t e row)
    (hadded : Inserts b.log row added) (hne : (∃ a ending, e = .release a ending) → t ≠ "")
    (hopen : ∀ p ∈ taskEvents t b.log, endStatus? p = none) :
    ∀ t' before p after st, taskEvents t' (b.log ++ added) = before ++ p :: after →
      endStatus? p = some st →
        after = [] ∧ t' ≠ "" ∧ (p.map Prod.fst).Nodup ∧ Entries.get? p "status" = some (.str st) := by
  intro t' before p after st hlog hst
  rcases hadded with rfl | ⟨rfl, -⟩
  · by_cases ht : t' = t
    · subst ht
      rw [hrow.taskEvents] at hlog
      cases after using List.reverseRecOn with
      | nil =>
          have hp : p = row.payload := (List.append_inj' hlog rfl).2 |> List.cons.inj |>.1.symm
          rw [hp] at hst ⊢
          obtain ⟨hstatus, hrelease⟩ := hrow.describes.endStatus hst
          exact ⟨rfl, hne hrelease, hrow.describes.keys, hstatus⟩
      | append_singleton after q =>
          rw [← List.cons_append, ← List.append_assoc] at hlog
          have hold := (List.append_inj' hlog rfl).1
          rw [hopen p (by rw [hold]; simp)] at hst
          cases hst
    · rw [hrow.taskEvents_ne _ ht] at hlog
      exact h.last t' before p after st hlog hst
  · rw [List.append_nil] at hlog
    exact h.last t' before p after st hlog hst

/-- The terminal events after a new row: old ones, or the row's when it is a release. -/
theorem ended_of_added {log added : GossipLog τ} {t t' : String} {e : TaskEvent} {row : GossipRow τ}
    {p : Payload} (hrow : RowDescribes t e row) (hadded : Inserts log row added)
    (hp : p ∈ taskEvents t' (log ++ added)) (hend : endStatus? p ≠ none) :
    p ∈ taskEvents t' log ∨ t' = t ∧ ∃ a ending, e = .release a ending := by
  rcases hadded with rfl | ⟨rfl, -⟩
  · by_cases ht : t' = t
    · rw [ht, hrow.taskEvents] at hp
      rcases List.mem_append.mp hp with hp | hp
      · rw [ht]; exact Or.inl hp
      · obtain ⟨st, hst⟩ := Option.ne_none_iff_exists'.mp hend
        rw [List.mem_singleton.mp hp] at hst
        exact Or.inr ⟨ht, (hrow.describes.endStatus hst).2⟩
    · rw [hrow.taskEvents_ne _ ht] at hp
      exact Or.inl hp
  · rw [List.append_nil] at hp
    exact Or.inl hp

/-- No claim commits when the task has ended since the claim read the snapshots, and none is on an id
that redaction changes; no task is added under the id of an ended one. -/
def ClaimsUnended (ops : ι → Operation) (s : System τ ι) : Action τ ι → Prop
  | .attempt i env =>
      match ops i, s.phase i with
      | .claim t _, .claiming readAt _ _ =>
          env.access = .granted → (∀ c ∈ s.board.claims, c.taskId ≠ t) →
            Redaction.redactText t = t ∧
              ∀ p ∈ taskEvents t (s.board.log.drop readAt), endStatus? p = none
      | _, _ => True
  | .add args suffix _ =>
      ∀ p ∈ taskEvents (Redaction.redactText (taskIdOf args suffix)) s.board.log, endStatus? p = none
  | _ => True

instance (s : System τ ι) : (action : Action τ ι) → Decidable (ClaimsUnended ops s action)
  | .attempt i env => by
      unfold ClaimsUnended
      dsimp only
      generalize ops i = op
      generalize s.phase i = phase
      cases op <;> cases phase <;> infer_instance
  | .add .. => by unfold ClaimsUnended; infer_instance
  | .read .. => isTrue trivial
  | .announce .. => isTrue trivial
  | .abort _ => isTrue trivial

/-- A claim that may commit is on a task that has not ended. -/
theorem Settled.unended {s : System τ ι} (h : Settled s.board) (hreads : Reads ops s) {i : ι}
    {t a : String} {readAt : ℕ} (hclaiming : s.ClaimingAt i readAt) (hop : ops i = .claim t a)
    (hsince : ∀ p ∈ taskEvents t (s.board.log.drop readAt), endStatus? p = none) :
    ∀ p ∈ taskEvents t s.board.log, endStatus? p = none := by
  intro p hp
  rw [← List.take_append_drop readAt s.board.log, taskEvents_append] at hp
  rcases List.mem_append.mp hp with hp | hp
  · by_contra hend
    obtain ⟨st, hst⟩ := Option.ne_none_iff_exists'.mp hend
    obtain ⟨-, -, hcompleted, habandoned⟩ := (hreads i readAt hclaiming).2 t a hop
    have hread := (h.take readAt).foldedStatus hp hst
    rw [endStatus?] at hst
    split at hst
    · exact hcompleted (hread.trans hst.symm)
    · split at hst
      · exact habandoned (hread.trans hst.symm)
      · cases hst
  · exact hsince p hp

theorem Settled.effect {s : System τ ι} {action : Action τ ι} {b : Board τ} (hreads : Reads ops s)
    (h : Settled s.board) (hunended : ClaimsUnended ops s action) (heffect : Effect ops s action b) :
    Settled b := by
  cases heffect with
  | same => exact h
  | @pulse row _ hrow =>
      have hlog : ∀ t, taskEvents t (s.board.log ++ [row]) = taskEvents t s.board.log := fun t => by
        rw [taskEvents_concat, hrow, if_neg Bool.false_ne_true]
      exact ⟨h.rows, h.nodup, fun t => hlog t ▸ h.last t, fun t => hlog t ▸ h.free t⟩
  | enqueue hrow =>
      refine ⟨h.rows, h.nodup, h.last_append hrow (Or.inl rfl) nofun hunended, fun t p hp hend => ?_⟩
      rcases ended_of_added hrow (Or.inl rfl) hp hend with hp | ⟨-, _, _, he⟩
      · exact h.free t p hp hend
      · cases he
  | @claim i env t a _ _ _ _ _ hop hphase haccess hfree hrow _ hadded =>
      simp only [ClaimsUnended, hop, hphase] at hunended
      obtain ⟨ht, hsince⟩ := hunended haccess hfree
      have hopen := h.unended hreads ⟨_, _, hphase⟩ hop hsince
      rw [ht] at hrow
      refine ⟨fun c hc => ?_, ?_, h.last_append hrow hadded nofun hopen, fun t' p hp hend c hc => ?_⟩
      · rcases List.mem_append.mp hc with hc | hc
        · exact h.rows c hc
        · rw [List.mem_singleton.mp hc]
          exact ⟨((hreads _ _ ⟨_, _, hphase⟩).2 _ _ hop).1, ht⟩
      · exact nodup_claim h.nodup hfree
      · rcases ended_of_added hrow hadded hp hend with hp | ⟨-, _, _, he⟩
        · rcases List.mem_append.mp hc with hc | hc
          · exact h.free t' p hp hend c hc
          · rw [List.mem_singleton.mp hc]
            rintro rfl
            exact hend (hopen p hp)
        · cases he
  | @release i env r _ _ hheld hrow _ hadded =>
      obtain ⟨d, hd, hdt, -⟩ := exists_held hheld
      obtain ⟨hne, hclean⟩ := h.rows d hd
      rw [hdt] at hne hclean
      rw [hclean] at hrow
      have hopen : ∀ p ∈ taskEvents r.taskId s.board.log, endStatus? p = none := fun p hp => by
        by_contra hend
        exact h.free r.taskId p hp hend d hd hdt
      refine ⟨fun c hc => h.rows c (List.mem_of_mem_filter hc),
        h.nodup.sublist (List.filter_sublist.map _),
        h.last_append hrow hadded (fun _ => hne) hopen, fun t' p hp hend c hc => ?_⟩
      rcases ended_of_added hrow hadded hp hend with hp | ⟨rfl, -⟩
      · exact h.free t' p hp hend c (List.mem_of_mem_filter hc)
      · exact free_of_release h.nodup hheld c hc

end Perpetua.Queue

import Mathlib.Data.Fin.Basic
import Perpetua.Queue.Lemmas.Invariants

/-!
# Theorems about the task queue

Over any interleaving of the readings and transactions of any number of operations: the claim rows
are the claimed tasks of the log, with one release between two claims, and when the end of a task is
the last thing that happens to it.
-/

namespace Perpetua.Queue

open GossipBus

/-! ## Sample operations -/

/-- No character beyond ASCII is a word character or a digit. -/
@[reducible] def asciiTables : Redaction.UnicodeTables := ⟨fun _ => false, fun _ => false⟩

/-- Two claims of one task, and its completion by the first claimant. -/
def twoClaims : Fin 3 → Operation
  | 0 => .claim "p-n-0" "A"
  | 1 => .claim "p-n-0" "B"
  | 2 => .complete "p-n-0" "A" "done"

def addTask (uuid : String) : Action ℕ (Fin 3) :=
  .add { taskName := "n", phase := "p", priority := "high", notes := "" } "0" ⟨.granted, uuid, 0⟩

def attemptWith (i : Fin 3) (uuid : String) : Action ℕ (Fin 3) := .attempt i ⟨.granted, uuid, 0⟩

section ClaimRows

variable {τ ι : Type} [DecidableEq ι] [Redaction.UnicodeTables] (ops : ι → Operation)

/-! ## Claim rows and events -/

def isClaim (p : Payload) : Bool := field? p "kind" = some "task_claim"

def isRelease (p : Payload) : Bool :=
  (field? p "kind").any (· ∈ ["task_complete", "task_failed", "task_abandoned"])

/-- The claim table holds the claimed tasks of the log, and between two claims of a task lies one
release, of the first claimant. -/
structure ClaimsAgree (b : Board τ) : Prop where
  rows : ∀ t a, b.Holds t a ↔ ClaimedBy b.log t a
  nodup : (b.claims.map (·.taskId)).Nodup
  oneRelease : ∀ t before p between q after,
    taskEvents t b.log = before ++ p :: (between ++ q :: after) → isClaim p → isClaim q →
      (∀ r ∈ between, ¬ isClaim r) →
        ∃ a r, Entries.get? p "assigned_agent" = some (.str a) ∧ between.filter isRelease = [r] ∧
          NamesClaimant a r

theorem Describes.field?_kind {e : TaskEvent} {p : Payload} (h : Describes e p) :
    field? p "kind" = some e.kind := by rw [field?, h.kind]; rfl

theorem Describes.isClaim_iff {e : TaskEvent} {p : Payload} (h : Describes e p) :
    isClaim p ↔ ∃ a, e = .claim a := by
  rw [isClaim, h.field?_kind]
  match e with
  | .enqueue => simp [TaskEvent.kind]
  | .claim a => simp [TaskEvent.kind]
  | .release _ .completed | .release _ .failed | .release _ .abandoned => simp [TaskEvent.kind]

theorem Describes.isRelease_iff {e : TaskEvent} {p : Payload} (h : Describes e p) :
    isRelease p ↔ ∃ a ending, e = .release a ending := by
  rw [isRelease, h.field?_kind]
  match e with
  | .enqueue => simp [TaskEvent.kind]
  | .claim a => simp [TaskEvent.kind]
  | .release _ .completed | .release _ .failed | .release _ .abandoned => simp [TaskEvent.kind]

/-- One release between two claims, read off the payloads of a history. -/
theorem Tells.oneRelease {hist : List (TaskEvent × Payload)} {s : TaskState} (h : Tells hist s)
    {before between after : List Payload} {p q : Payload}
    (hlog : hist.map Prod.snd = before ++ p :: (between ++ q :: after)) (hp : isClaim p)
    (hq : isClaim q) (hnone : ∀ r ∈ between, ¬ isClaim r) :
    ∃ a r, (.claim a, p) ∈ hist ∧ between.filter isRelease = [r] ∧ NamesClaimant a r := by
  obtain ⟨h₁, hist₁, rfl, rfl, hlog₁⟩ := List.map_eq_append_iff.mp hlog
  obtain ⟨⟨e, _⟩, hist₂, rfl, rfl, hlog₂⟩ := List.map_eq_cons_iff.mp hlog₁
  obtain ⟨h₂, hist₃, rfl, rfl, hlog₃⟩ := List.map_eq_append_iff.mp hlog₂
  obtain ⟨⟨f, _⟩, h₃, rfl, rfl, rfl⟩ := List.map_eq_cons_iff.mp hlog₃
  have hdescribes := h.describes
  have hhistory := h.history
  obtain ⟨a, rfl⟩ := (hdescribes (e, _) (by simp)).isClaim_iff.mp hp
  obtain ⟨b, rfl⟩ := (hdescribes (f, _) (by simp)).isClaim_iff.mp hq
  rw [List.map_append, List.map_cons, List.map_append, List.map_cons] at hhistory
  have hunclaimed : ∀ c, .claim c ∉ h₂.map Prod.fst := by
    intro c hc
    obtain ⟨⟨g, r⟩, hmem, rfl⟩ := List.mem_map.mp hc
    refine hnone r (List.mem_map_of_mem hmem) ?_
    exact (hdescribes (_, r) (by simp [hmem])).isClaim_iff.mpr ⟨c, rfl⟩
  obtain ⟨ending, later, hbetween, hlater⟩ := one_release_between hhistory hunclaimed
  obtain ⟨⟨g, r⟩, h₂, rfl, rfl, rfl⟩ := List.map_eq_cons_iff.mp hbetween
  have hr := hdescribes (.release a ending, r) (by simp)
  refine ⟨a, r, by simp, ?_, hr.claimant a ending rfl⟩
  rw [List.map_cons, List.filter_cons_of_pos (hr.isRelease_iff.mpr ⟨a, ending, rfl⟩)]
  congr 1
  rw [List.filter_eq_nil_iff]
  intro x hx
  obtain ⟨⟨g, x⟩, hmem, rfl⟩ := List.mem_map.mp hx
  rw [(hdescribes (g, x) (by simp [hmem])).isRelease_iff]
  rintro ⟨c, ending', rfl⟩
  cases hlater _ (List.mem_map_of_mem hmem)

theorem Agrees.claimsAgree {b : Board τ} (h : Agrees b) : ClaimsAgree b := by
  refine ⟨fun t a => ?_, h.nodup, fun t before p between q after hlog hp hq hnone => ?_⟩
  · obtain ⟨hist, s, hrec⟩ := h.histories t
    by_cases ht : t = ""
    · subst ht
      constructor
      · rintro ⟨c, hc, hct, -⟩
        exact absurd hct (h.rows c hc).nonempty
      · rintro ⟨_, hget, -⟩
        rw [get?_latestTaskSnapshots_empty] at hget
        cases hget
    · rw [hrec.holds, hrec.tells.claimedBy_iff ht hrec.log]
      constructor
      · intro hs
        obtain ⟨c, hc, -, hca⟩ := (hrec.holds a).mpr hs
        exact ⟨a, hs, hca ▸ (h.rows c hc).agentId⟩
      · rintro ⟨x, hs, hx⟩
        obtain ⟨c, hc, -, hca⟩ := (hrec.holds x).mpr hs
        rw [hs, ← hx, ← hca, (h.rows c hc).agentId]
  · obtain ⟨hist, s, hrec⟩ := h.histories t
    rw [← hrec.log] at hlog
    obtain ⟨a, r, hmem, hrelease, hnames⟩ := hrec.tells.oneRelease hlog hp hq hnone
    refine ⟨a, r, ?_, hrelease, hnames⟩
    rw [(hrec.tells.describes _ hmem).assigned a rfl, hrec.clean a p hmem]

variable {ops}

/-- The claim table and the log agree in every state reached by writes with fresh uuids, as long as
no task is added under the id of a claimed one. -/
theorem claimsAgree_run (hops : CleanIds ops) (steps : List (Action τ ι))
    (h : Machine.Along (step ops) (fun s action => FreshUuid s action ∧ AddsUnclaimed s action) {}
      steps) : ClaimsAgree (runSteps ops steps).board := by
  have hinv : Checked ops (runSteps ops steps) ∧ Agrees (runSteps ops steps).board :=
    h.invariant (I := fun s => Checked ops s ∧ Agrees s.board)
      (fun s action hs hc => ⟨hs.1.step action, hs.2.effect hops hs.1.reads hc.1 hc.2
        (step_effect ops s action)⟩)
      ⟨checked_run ops [], agrees_empty⟩
  exact hinv.2.claimsAgree

end ClaimRows

section SampleRuns

local instance : Redaction.UnicodeTables := asciiTables

theorem cleanIds_twoClaims : CleanIds twoClaims := by
  intro i t a hop
  match i with
  | 0 | 1 => cases hop; exact ⟨by decide +kernel, by decide +kernel⟩
  | 2 => cases hop

theorem claimsAgree_claim_complete :
    ClaimsAgree (runSteps twoClaims [addTask "u0", .read 0 none "w", .read 1 none "w",
      attemptWith 0 "u1", .read 2 none "w", attemptWith 1 "u2", attemptWith 2 "u3"]).board :=
  claimsAgree_run cleanIds_twoClaims _ (by decide +kernel)

/-- The id of a claimed task is drawn again. -/
def repeatedId : List (Action ℕ (Fin 3)) :=
  [addTask "u0", .read 0 none "w", attemptWith 0 "u1", addTask "u2"]

theorem not_claimsAgree_repeatedId :
    CleanIds twoClaims ∧ Machine.Along (step twoClaims) FreshUuid {} repeatedId ∧
      ¬ ClaimsAgree (runSteps twoClaims repeatedId).board := by
  refine ⟨cleanIds_twoClaims, by decide +kernel, fun h => ?_⟩
  have hholds : (runSteps twoClaims repeatedId).board.Holds "p-n-0" "A" := by
    unfold Board.Holds; decide +kernel
  obtain ⟨_, hget, hstatus, _⟩ := (h.rows _ _).mp hholds
  have hfolded : foldedStatus (runSteps twoClaims repeatedId).board.log "p-n-0" = some "queued" := by
    decide +kernel
  rw [foldedStatus, hget, Option.bind_some, field?, hstatus] at hfolded
  exact absurd hfolded (by decide)

end SampleRuns

/-! ## Ended tasks -/

section EndedTasks

variable {τ ι : Type} [DecidableEq ι] [Redaction.UnicodeTables] (ops : ι → Operation)

/-- After a terminal event of a task comes no claim of it, and its folded status stays. -/
structure Final (steps : List (Action τ ι)) : Prop where
  noClaim : ∀ t before p after, taskEvents t (runSteps ops steps).board.log = before ++ p :: after →
    endStatus? p ≠ none → ∀ q ∈ after, ¬ isClaim q
  stays : ∀ pre post t p st, steps = pre ++ post →
    p ∈ taskEvents t (runSteps ops pre).board.log → endStatus? p = some st →
      foldedStatus (runSteps ops steps).board.log t = some st

variable {ops}

variable (ops) in
theorem run_log (pre post : List (Action τ ι)) :
    ∃ added, (runSteps ops (pre ++ post)).board.log = (runSteps ops pre).board.log ++ added := by
  rw [runSteps, Machine.run_append]
  refine Machine.run_invariant
    (I := fun s : System τ ι => ∃ added, s.board.log = (runSteps ops pre).board.log ++ added)
    (fun s action h => ?_) ⟨[], (List.append_nil _).symm⟩ post
  obtain ⟨added, hs⟩ := h
  obtain ⟨more, hmore⟩ := step_log ops s action
  exact ⟨added ++ more, by rw [hmore, hs, List.append_assoc]⟩

/-- The end of a task is final as long as no claim commits on a reading older than that end. -/
theorem final_of_claimsUnended (steps : List (Action τ ι))
    (h : Machine.Along (step ops) (ClaimsUnended ops) {} steps) : Final ops steps := by
  have hinv : Checked ops (runSteps ops steps) ∧ Settled (runSteps ops steps).board :=
    h.invariant (I := fun s => Checked ops s ∧ Settled s.board)
      (fun s action hs hc => ⟨hs.1.step action, hs.2.effect hs.1.reads hc (step_effect ops s action)⟩)
      ⟨checked_run ops [], settled_empty⟩
  refine ⟨fun t before p after hlog hend q hq => ?_, fun pre post t p st hsteps hp hst => ?_⟩
  · obtain ⟨st, hst⟩ := Option.ne_none_iff_exists'.mp hend
    rw [(hinv.2.last t before p after st hlog hst).1] at hq
    cases hq
  · refine hinv.2.foldedStatus (p := p) ?_ hst
    obtain ⟨added, hlog⟩ := run_log ops pre post
    rw [hsteps, hlog, taskEvents_append]
    exact List.mem_append_left _ hp

end EndedTasks

section SampleRuns

local instance : Redaction.UnicodeTables := asciiTables

theorem final_claim_complete :
    Final twoClaims [addTask "u0", .read 0 none "w", .read 1 none "w", attemptWith 0 "u1",
      .read 2 none "w", attemptWith 1 "u2", attemptWith 2 "u3"] :=
  final_of_claimsUnended _ (by decide +kernel)

/-- The second claim reads the queued task and commits once it is completed. -/
def staleClaim : List (Action ℕ (Fin 3)) :=
  [addTask "u0", .read 0 none "w", .read 1 none "w", attemptWith 0 "u1", .read 2 none "w",
    attemptWith 2 "u2", attemptWith 1 "u3"]

theorem not_final_staleClaim : ¬ Final twoClaims staleClaim := by
  intro h
  obtain ⟨p, hp, hend⟩ : ∃ p ∈ taskEvents "p-n-0" (runSteps twoClaims (staleClaim.take 6)).board.log,
      endStatus? p = some "completed" := by decide +kernel
  have hstays := h.stays (staleClaim.take 6) (staleClaim.drop 6) "p-n-0" p "completed" rfl hp hend
  revert hstays
  decide +kernel

end SampleRuns

end Perpetua.Queue

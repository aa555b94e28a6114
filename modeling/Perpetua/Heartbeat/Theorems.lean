import Mathlib.Data.List.Induction
import Mathlib.Data.Fin.Basic
import Perpetua.Queue.Lemmas.Effects
import Perpetua.Heartbeat.Posts

/-!
# Releases of board claims

An open claim is the last claim event of its task. A release removes it whoever made it, so the
claims of other agents stay open only in runs whose releases come while no other agent holds the task.
-/

namespace Perpetua.Heartbeat

open GossipBus Queue

variable {τ : Type}

/-! ## The last claim event of a task -/

/-- The claim events of a task, oldest first. -/
def claimEventsOf (t : Json.Key) (log : GossipLog τ) : GossipLog τ :=
  log.filter fun row => isHeartbeatOf agentClaimKinds row && (taskOf row.payload).key? = some t

def opens (row : GossipRow τ) : Bool := field? row.payload "kind" = some "agent_claim"

/-- The agent of an event, as a `dict` takes it. -/
def agentKey (p : Payload) : Option Json.Key := (valueOf p "agent_id").key?

theorem claimEventsOf_append (t : Json.Key) (log more : GossipLog τ) :
    claimEventsOf t (log ++ more) = claimEventsOf t log ++ claimEventsOf t more :=
  List.filter_append ..

theorem openClaims_concat (log : GossipLog τ) (row : GossipRow τ) :
    openClaims (log ++ [row]) = (openClaims log).bind fun state =>
      if isHeartbeatOf agentClaimKinds row then foldClaim state row else some state := by
  rw [openClaims, fetchHeartbeatEvents, List.filter_append, List.foldlM_append]
  by_cases h : isHeartbeatOf agentClaimKinds row
  · rw [List.filter_cons_of_pos h]
    simp [h, openClaims, fetchHeartbeatEvents]
  · rw [List.filter_cons_of_neg h]
    simp [h, openClaims, fetchHeartbeatEvents]

theorem get?_foldClaim {state state' : List (Json.Key × OpenClaim τ)} {row : GossipRow τ}
    (h : foldClaim state row = some state') (t : Json.Key) :
    Entries.get? state' t =
      if (taskOf row.payload).key? = some t then (if opens row then some (openedBy row) else none)
      else Entries.get? state t := by
  obtain ⟨task, htask, rfl⟩ := Option.map_eq_some_iff.mp h
  simp only [htask, Option.some_inj]
  by_cases h : field? row.payload "kind" = some "agent_claim"
  · simp [opens, h]
  · simp [opens, h, Entries.get?_erase, eq_comm]

theorem get?_openClaims {log : GossipLog τ} {state : List (Json.Key × OpenClaim τ)}
    (h : openClaims log = some state) (t : Json.Key) :
    Entries.get? state t =
      (claimEventsOf t log).getLast?.bind fun row => if opens row then some (openedBy row) else none := by
  induction log using List.reverseRecOn generalizing state with
  | nil =>
      obtain rfl := Option.some.inj h
      rfl
  | append_singleton log row ih =>
      rw [openClaims_concat, Option.bind_eq_some_iff] at h
      obtain ⟨before, hbefore, h⟩ := h
      rw [claimEventsOf_append]
      by_cases hkind : isHeartbeatOf agentClaimKinds row
      · rw [if_pos hkind] at h
        rw [get?_foldClaim h]
        by_cases ht : (taskOf row.payload).key? = some t
        · simp [claimEventsOf, hkind, ht]
        · simp [claimEventsOf, ht, ih hbefore]
      · rw [if_neg hkind, Option.some_inj] at h
        simp [claimEventsOf, hkind, ih hbefore, ← h]

theorem keys_openClaims {log : GossipLog τ} {state : List (Json.Key × OpenClaim τ)}
    (h : openClaims log = some state) : (state.map Prod.fst).Nodup := by
  induction log using List.reverseRecOn generalizing state with
  | nil =>
      obtain rfl := Option.some.inj h
      exact List.nodup_nil
  | append_singleton log row ih =>
      rw [openClaims_concat, Option.bind_eq_some_iff] at h
      obtain ⟨before, hbefore, h⟩ := h
      split at h
      · obtain ⟨task, -, rfl⟩ := Option.map_eq_some_iff.mp h
        split
        · exact Entries.nodup_set (ih hbefore) _ _
        · exact Entries.nodup_erase (ih hbefore) _
      · exact Option.some.inj h ▸ ih hbefore

theorem task_of_get? {log : GossipLog τ} {state : List (Json.Key × OpenClaim τ)}
    (hstate : openClaims log = some state) {t : Json.Key} {claim : OpenClaim τ}
    (h : Entries.get? state t = some claim) : claim.task.key? = some t := by
  rw [get?_openClaims hstate, Option.bind_eq_some_iff] at h
  obtain ⟨row, hlast, h⟩ := h
  have hrow := List.mem_of_getLast? hlast
  simp only [claimEventsOf, List.mem_filter, Bool.and_eq_true, decide_eq_true_eq] at hrow
  split at h
  · rw [← Option.some.inj h, ← hrow.2.2]; rfl
  · cases h

/-- The claim is open, under its task. -/
def IsOpen (log : GossipLog τ) (claim : OpenClaim τ) : Prop :=
  ∃ state, openClaims log = some state ∧
    ∃ t, claim.task.key? = some t ∧ Entries.get? state t = some claim

theorem isOpen_of_mem_findOpenClaims {log : GossipLog τ} {claims : List (OpenClaim τ)}
    (h : findOpenClaims log = some claims) {claim : OpenClaim τ} (hmem : claim ∈ claims) :
    IsOpen log claim := by
  obtain ⟨state, hstate, rfl⟩ := Option.map_eq_some_iff.mp h
  obtain ⟨⟨t, _⟩, hentry, rfl⟩ := List.mem_map.mp hmem
  have hget := Entries.get?_of_mem (keys_openClaims hstate) hentry
  exact ⟨state, hstate, t, task_of_get? hstate hget, hget⟩

/-! ## Releases of one's own -/

/-- The last claim event of the task is a claim of another agent. -/
def heldByOther (log : GossipLog τ) (t : Json.Key) (agent : Option Json.Key) : Bool :=
  (claimEventsOf t log).getLast?.any fun row => opens row && agentKey row.payload ≠ agent

def isRelease (row : GossipRow τ) : Bool :=
  row.eventType = "heartbeat" && field? row.payload "kind" = some "agent_release"

/-- The claims of the other agents that are open before the event are open behind it. -/
def KeepsOpen (log : GossipLog τ) (row : GossipRow τ) : Prop :=
  ∀ claim, IsOpen log claim → claim.agentId.key? ≠ agentKey row.payload →
    IsOpen (log ++ [row]) claim

/-- A release on a task that no other agent holds removes no other agent's claim. -/
theorem keepsOpen_of_not_heldByOther {log : GossipLog τ} {row : GossipRow τ} (hrow : isRelease row)
    {task : Json.Key} (htask : (taskOf row.payload).key? = some task)
    (h : heldByOther log task (agentKey row.payload) = false) : KeepsOpen log row := by
  rintro claim ⟨state, hstate, t, ht, hget⟩ hother
  simp only [isRelease, Bool.and_eq_true, decide_eq_true_eq] at hrow
  have hkind : isHeartbeatOf agentClaimKinds row := by simp [isHeartbeatOf, hrow, agentClaimKinds]
  have hfold : foldClaim state row = some (Entries.erase state task) := by
    simp [foldClaim, htask, hrow.2]
  have hstate' : openClaims (log ++ [row]) = some (Entries.erase state task) := by
    rw [openClaims_concat, hstate, Option.bind_some, if_pos hkind, hfold]
  refine ⟨_, hstate', t, ht, ?_⟩
  simp only [get?_foldClaim hfold, htask, Option.some_inj]
  by_cases heq : task = t
  · rw [get?_openClaims hstate, Option.bind_eq_some_iff] at hget
    obtain ⟨last, hlast, hopen⟩ := hget
    rw [heldByOther, heq, hlast] at h
    split at hopen
    · rename_i hopens
      rw [← Option.some.inj hopen] at hother
      simp [hopens] at h
      exact absurd h hother
    · cases hopen
  · rw [if_neg heq, hget]

/-- The claim that a cleanup read is still the task's last one unless another agent has claimed it
since. -/
theorem not_heldByOther_since {log : GossipLog τ} {readAt : ℕ} {claim : OpenClaim τ}
    (hread : IsOpen (log.take readAt) claim) {t : Json.Key} (ht : claim.task.key? = some t)
    (hsince : heldByOther (log.drop readAt) t claim.agentId.key? = false) :
    heldByOther log t claim.agentId.key? = false := by
  obtain ⟨state, hstate, t', ht', hget⟩ := hread
  obtain rfl := Option.some.inj (ht.symm.trans ht')
  have hlog := claimEventsOf_append t (log.take readAt) (log.drop readAt)
  rw [List.take_append_drop] at hlog
  rw [heldByOther] at hsince ⊢
  rw [hlog, List.getLast?_append]
  cases hlast : (claimEventsOf t (log.drop readAt)).getLast? with
  | some row => rw [hlast] at hsince; exact hsince
  | none =>
      rw [get?_openClaims hstate, Option.bind_eq_some_iff] at hget
      obtain ⟨row, hrow, hopen⟩ := hget
      split at hopen
      · rw [Option.none_or, hrow, ← Option.some.inj hopen]
        simp [openedBy, agentKey]
      · cases hopen

/-! ## Posts and steps -/

section Steps

variable [Redaction.UnicodeTables]

theorem release_of_kind {p : Post} {env : WriteEnv τ}
    (h : isRelease (⟨env.uuid, env.now, "heartbeat", durablePayload p.payload⟩ : GossipRow τ)) :
    ∃ agentId task worktree, p = .release agentId task worktree := by
  simp only [isRelease, Bool.and_eq_true, decide_eq_true_eq] at h
  cases p with
  | release agentId task worktree => exact ⟨agentId, task, worktree, rfl⟩
  | register _ _ _ _ _ | claim _ _ _ _ | pulse _ _ _ | kill _ _ _ _ =>
      rw [field?_durable_const (by decide) rfl (by simp) (by simp)] at h
      simp at h

theorem valueOf_durable {p : Payload} {k : String} (hk : plainKey k) :
    valueOf (durablePayload p) k = Redaction.redactValue (valueOf p k) := by
  rw [valueOf, valueOf, get?_durable hk]
  cases Entries.get? p k with
  | none => rfl
  | some v => rfl

/-- A cleanup's release names the agent as redaction leaves it. -/
theorem agentKey_autoRelease (claim : OpenClaim τ) :
    agentKey (durablePayload (autoReleasePayload claim)) =
      (Redaction.redactValue claim.agentId).key? := by
  rw [agentKey, valueOf_durable (by decide)]
  rfl

theorem taskOf_autoRelease (claim : OpenClaim τ) :
    taskOf (durablePayload (autoReleasePayload claim)) = Redaction.redactValue claim.task := by
  rw [taskOf, get?_durable (by decide)]
  rfl

variable {ι : Type} [PyReal τ]

/-- Redaction leaves the value the same for a `dict`. -/
def Unredacted (v : Json.Value) : Prop := (Redaction.redactValue v).key? = v.key?

instance (v : Json.Value) : Decidable (Unredacted v) := inferInstanceAs (Decidable (_ = _))

/-- No release comes while the last claim event of its task is a claim of another agent; for a cleanup,
whose claim has ids that redaction leaves alone, it is enough that no other agent has claimed the task
since the cleanup read the open claims. -/
def OwnReleases (s : System τ ι) : Action τ ι → Prop
  | .post (.release agentId task _) env =>
      Adds env s.log → heldByOther s.log (.text (Redaction.redactText task))
        (some (.text (Redaction.redactText agentId))) = false
  | .release i env =>
      match s.phase i with
      | .releasing readAt (claim :: _) _ =>
          Adds env s.log → Unredacted claim.task ∧ Unredacted claim.agentId ∧
            ∀ t ∈ claim.task.key?, heldByOther (s.log.drop readAt) t claim.agentId.key? = false
      | _ => True
  | _ => True

instance (s : System τ ι) (action : Action τ ι) : Decidable (OwnReleases s action) := by
  cases action with
  | post p env => cases p <;> (unfold OwnReleases; infer_instance)
  | read i now => unfold OwnReleases; infer_instance
  | release i env => unfold OwnReleases; dsimp only; split <;> infer_instance

variable [DecidableEq ι]

/-- An `agent_release` event that the step adds leaves the open claims of the other agents open. -/
def KeepsOthers (s : System τ ι) (action : Action τ ι) : Prop :=
  ∀ row, (step s action).log = s.log ++ [row] → isRelease row → ∀ claim, IsOpen s.log claim →
    claim.agentId.key? ≠ agentKey row.payload → IsOpen (step s action).log claim

/-- The stale claims of a cleanup were open in the log it read. -/
def Read (s : System τ ι) : Prop :=
  ∀ i readAt todo released, s.phase i = .releasing readAt todo released → readAt ≤ s.log.length ∧
    ∀ claim ∈ todo, IsOpen (s.log.take readAt) claim

omit [Redaction.UnicodeTables] in
theorem stepRead_log (s : System τ ι) (i : ι) (now : τ) : (stepRead s i now).log = s.log := by
  unfold stepRead
  split
  · split <;> rfl
  · split <;> rfl
  · rfl

theorem step_log (s : System τ ι) (action : Action τ ι) :
    ∃ added, (step s action).log = s.log ++ added := by
  have hemit : ∀ payload env, ∃ added, (emit payload env s.log).getD s.log = s.log ++ added := by
    intro payload env
    unfold emit
    split
    · obtain ⟨added, -, hlog⟩ := insertEvent_inserts env.uuid env.now "heartbeat" payload s.log
      exact ⟨added, hlog⟩
    · exact ⟨[], (List.append_nil _).symm⟩
  cases action with
  | post p env => exact hemit p.payload env
  | read i now =>
      refine ⟨[], ?_⟩
      rw [step, stepRead_log, List.append_nil]
  | release i env =>
      simp only [step, stepRelease]
      split
      · exact ⟨[], (List.append_nil _).symm⟩
      · rename_i claim _ _ _
        obtain ⟨added, hlog⟩ := hemit (autoReleasePayload claim) env
        split
        · rename_i log hsome
          rw [hsome] at hlog
          exact ⟨added, hlog⟩
        · exact ⟨[], (List.append_nil _).symm⟩
      · exact ⟨[], (List.append_nil _).symm⟩

omit [Redaction.UnicodeTables] [PyReal τ] in
theorem Read.move {s : System τ ι} (h : Read s) (i : ι) {phase : Phase τ}
    (hphase : ∀ readAt todo released, phase = .releasing readAt todo released →
      readAt ≤ s.log.length ∧ ∀ claim ∈ todo, IsOpen (s.log.take readAt) claim) :
    Read (s.move i phase) := by
  intro j readAt todo released hj
  simp only [System.move, Function.update_apply] at hj
  split at hj
  · exact hphase readAt todo released hj
  · exact h j readAt todo released hj

omit [Redaction.UnicodeTables] [PyReal τ] [DecidableEq ι] in
theorem Read.append {s : System τ ι} (h : Read s) (added : GossipLog τ) :
    Read { s with log := s.log ++ added } := by
  intro i readAt todo released hi
  obtain ⟨hle, hread⟩ := h i readAt todo released hi
  refine ⟨by rw [List.length_append]; omega, ?_⟩
  rwa [List.take_append_of_le_length hle]

theorem Read.step {s : System τ ι} (h : Read s) (action : Action τ ι) : Read (step s action) := by
  cases action with
  | post p env =>
      obtain ⟨added, hlog⟩ := step_log s (.post p env)
      have hsame : Heartbeat.step s (.post p env) = { s with log := s.log ++ added } :=
        congrArg (fun log => { s with log }) hlog
      rw [hsame]
      exact h.append added
  | read i now =>
      simp only [Heartbeat.step, stepRead]
      split
      · split <;> exact h.move i nofun
      · split
        · rename_i stale hstale
          refine h.move i fun readAt todo released hphase => ?_
          cases hphase
          refine ⟨le_rfl, fun claim hclaim => ?_⟩
          rw [List.take_length]
          obtain ⟨claims, hclaims, hstale⟩ := Option.bind_eq_some_iff.mp hstale
          rw [staleClaims, Option.ite_none_right_eq_some] at hstale
          refine isOpen_of_mem_findOpenClaims hclaims ?_
          exact List.mem_of_mem_filter (Option.some.inj hstale.2 ▸ hclaim)
        · exact h.move i nofun
      · exact h
  | release i env =>
      have hlog := step_log s (.release i env)
      simp only [Heartbeat.step, stepRelease] at hlog ⊢
      split at hlog
      · exact h.move i nofun
      · rename_i readAt claim todo released hphase
        obtain ⟨hle, hread⟩ := h i _ _ _ hphase
        split at hlog
        · obtain ⟨added, hlog⟩ := hlog
          dsimp only [System.move] at hlog
          rw [hlog]
          refine (h.append added).move i fun _ _ _ heq => ?_
          cases heq
          refine ⟨by rw [List.length_append]; omega, fun c hc => ?_⟩
          rw [List.take_append_of_le_length hle]
          exact hread c (List.mem_cons_of_mem _ hc)
        · exact h.move i nofun
      · exact h

/-- The claims that the others hold survive a step that only releases its own. -/
theorem KeepsOthers.of_ownReleases {s : System τ ι} (h : Read s) {action : Action τ ι}
    (hown : OwnReleases s action) : KeepsOthers s action := by
  intro row hlog hrelease
  rw [hlog]
  suffices KeepsOpen s.log row from this
  cases action with
  | read i now =>
      rw [step, stepRead_log] at hlog
      simp at hlog
  | post p env =>
      obtain ⟨hadds, rfl⟩ := emit_added hlog
      obtain ⟨agentId, task, worktree, rfl⟩ := release_of_kind hrelease
      have hagent : agentKey (durablePayload (Post.release agentId task worktree).payload) =
          some (.text (Redaction.redactText agentId)) := by
        rw [agentKey, valueOf_durable (by decide)]
        rfl
      have htask : (taskOf (durablePayload (Post.release agentId task worktree).payload)).key? =
          some (.text (Redaction.redactText task)) := by
        rw [taskOf, get?_durable (by decide)]
        rfl
      refine keepsOpen_of_not_heldByOther hrelease htask ?_
      rw [hagent]
      exact hown hadds
  | release i env =>
      simp only [step, stepRelease] at hlog
      split at hlog
      · simp [System.move] at hlog
      · rename_i readAt pending todo released hphase
        have hemit : (emit (autoReleasePayload pending) env s.log).getD s.log = s.log ++ [row] := by
          split at hlog
          · rename_i log hsome; rw [hsome]; exact hlog
          · simp [System.move] at hlog
        obtain ⟨hadds, rfl⟩ := emit_added hemit
        simp only [OwnReleases, hphase] at hown
        obtain ⟨hcleanTask, hcleanAgent, hsince⟩ := hown hadds
        obtain ⟨-, hread⟩ := h i _ _ _ hphase
        have hopen := hread pending List.mem_cons_self
        obtain ⟨t, ht⟩ : ∃ t, pending.task.key? = some t := by
          obtain ⟨-, -, t, ht, -⟩ := hopen
          exact ⟨t, ht⟩
        have hagent := (agentKey_autoRelease pending).trans hcleanAgent
        refine keepsOpen_of_not_heldByOther hrelease (show _ = some t from ?_) ?_
        · rw [taskOf_autoRelease, hcleanTask, ht]
        · rw [hagent]
          exact not_heldByOther_since hopen ht (hsince t ht)
      · simp at hlog

/-- From any log and with no cleanup under way: in a run whose releases come while no other agent holds
the task, no release removes the claim of another agent. -/
theorem keepsOthers_run {s : System τ ι} (hstart : ∀ i, s.phase i = .start)
    {steps : List (Action τ ι)} (h : Machine.Along step OwnReleases s steps) :
    Machine.Along step KeepsOthers s steps := by
  have hread : Read s := fun i _ _ _ hi => by rw [hstart i] at hi; cases hi
  exact (h.strengthen (fun _ action hs _ => hs.step action) hread).mono
    fun _ _ hs => .of_ownReleases hs.1 hs.2

end Steps

section SampleRuns

local instance sampleTables : Redaction.UnicodeTables := ⟨fun _ => false, fun _ => false⟩

def postSample (p : Post) (uuid : String) : Action ℚ (Fin 1) := .post p ⟨.granted, uuid, 0⟩

/-- An agent is killed with a claim open, and the cleanup releases it. -/
def killedClaim : List (Action ℚ (Fin 1)) :=
  [postSample (.claim "A" "t" "w" "") "u0", postSample (.kill "A" "w" "stuck" (.int 0)) "u1",
    .read 0 0, .read 0 0, .release 0 ⟨.granted, "u2", 0⟩, postSample (.claim "B" "t" "w" "") "u3"]

theorem keepsOthers_killedClaim :
    Machine.Along step KeepsOthers ({} : System ℚ (Fin 1)) killedClaim :=
  keepsOthers_run (fun _ => rfl) (by decide +kernel)

/-- The board lets `B` claim the task that `A` holds, and `A` then releases it. -/
def lateRelease : List (Action ℚ (Fin 1)) :=
  [postSample (.claim "A" "t" "w" "") "u0", postSample (.claim "B" "t" "w" "") "u1",
    postSample (.release "A" "t" "w") "u2"]

theorem not_keepsOthers_lateRelease :
    ¬ Machine.Along step KeepsOthers ({} : System ℚ (Fin 1)) lateRelease := by
  rintro ⟨-, -, hrelease, -⟩
  have hkept := hrelease ⟨"u2", 0, "heartbeat", durablePayload (Post.release "A" "t" "w").payload⟩
    rfl (by decide +kernel) ⟨.str "B", .str "t", 0, .str "w", .str ""⟩
    ⟨_, rfl, .text "t", rfl, rfl⟩ (by decide +kernel)
  obtain ⟨state, hstate, t, ⟨⟩, hget⟩ := hkept
  have hclosed : (openClaims (Machine.run step ({} : System ℚ (Fin 1)) lateRelease).log).all
      fun state => (Entries.get? state (.text "t")).isNone := by decide +kernel
  rw [show openClaims (Machine.run step ({} : System ℚ (Fin 1)) lateRelease).log = some state from
    hstate, Option.all_some, hget] at hclosed
  cases hclosed

end SampleRuns

end Perpetua.Heartbeat

import Perpetua.Queue.Lemmas.Invariants

/-!
# The folded fields of a task

A field of a task's snapshot is the one that its last event with that field wrote. The checks of the
operations only look at a few of them.
-/

namespace Perpetua.Queue

open GossipBus

variable {τ : Type}

/-- A field of the folded snapshot of a task. -/
def folded (log : GossipLog τ) (taskId k : String) : Option Json.Value :=
  (Entries.get? (latestTaskSnapshots log) taskId).bind fun snapshot => Entries.get? snapshot k

theorem folded_eq {log : GossipLog τ} {t : String} (ht : t ≠ "") (k : String) :
    folded log t k = Entries.get? ((taskEvents t log).foldl Entries.update []) k := by
  rw [folded, get?_latestTaskSnapshots ht]
  by_cases h : taskEvents t log = []
  · simp [h]
  · simp [h]

theorem foldedStatus_eq (log : GossipLog τ) (t : String) :
    foldedStatus log t = (folded log t "status").bind Json.Value.str? := by
  simp only [foldedStatus, folded, field?, Option.bind_assoc]

theorem folded_of_taskEvents {log log' : GossipLog τ} {t : String} (ht : t ≠ "")
    (h : taskEvents t log' = taskEvents t log) (k : String) : folded log' t k = folded log t k := by
  rw [folded_eq ht, folded_eq ht, h]

/-- What an event of the task does to a field of its snapshot. -/
theorem folded_concat {log log' : GossipLog τ} {t : String} {p : Payload} (ht : t ≠ "")
    (h : taskEvents t log' = taskEvents t log ++ [p]) (hkeys : (p.map Prod.fst).Nodup) (k : String) :
    folded log' t k = (Entries.get? p k).or (folded log t k) := by
  rw [folded_eq ht, folded_eq ht, h, List.foldl_append, List.foldl_cons, List.foldl_nil,
    Entries.get?_update, Entries.get?_reverse hkeys]

/-! ## The checks, by the fields they look at -/

theorem exists_snapshot {log : GossipLog τ} {t k : String} {v : Json.Value}
    (h : folded log t k = some v) :
    ∃ task, Entries.get? (latestTaskSnapshots log) t = some task ∧ task ≠ [] := by
  obtain ⟨task, hget, hfield⟩ := Option.bind_eq_some_iff.mp h
  refine ⟨task, hget, ?_⟩
  rintro rfl
  cases hfield

theorem folded_of_get? {log : GossipLog τ} {t : String} {task : Payload}
    (hget : Entries.get? (latestTaskSnapshots log) t = some task) (k : String) :
    Entries.get? task k = folded log t k := by simp [folded, hget]

/-- A queued task without reservation or dependencies can be claimed. -/
theorem checkClaim_queued {log : GossipLog τ} {t : String}
    (hstatus : folded log t "status" = some (.str "queued"))
    (hreserved : folded log t "required_agent_id" = none)
    (hdepends : folded log t "depends_on" = some (.arr [])) (ptAgentId : Option String) (a : String) :
    checkClaim (latestTaskSnapshots log) ptAgentId t a = .ok () := by
  obtain ⟨task, hget, hne⟩ := exists_snapshot hstatus
  have hfield := folded_of_get? hget
  cases task with
  | nil => exact absurd rfl hne
  | cons e task =>
      simp [checkClaim, hget, field?, hfield, hstatus, checkReservation, hreserved,
        checkDependencies, dependencies, hdepends, Json.Value.str?]
      rfl

theorem checkOwned_claimed {log : GossipLog τ} {t a : String}
    (hstatus : folded log t "status" = some (.str "claimed"))
    (hassigned : folded log t "assigned_agent" = some (.str a)) :
    ∃ task, Entries.get? (latestTaskSnapshots log) t = some task ∧
      checkOwned (latestTaskSnapshots log) t a = .ok task := by
  obtain ⟨task, hget, hne⟩ := exists_snapshot hstatus
  have hfield := folded_of_get? hget
  cases task with
  | nil => exact absurd rfl hne
  | cons e task =>
      refine ⟨e :: task, hget, ?_⟩
      simp [checkOwned, hget, field?, hfield, hstatus, hassigned, Json.Value.str?]

theorem intField?_folded {log : GossipLog τ} {t k : String} {n default : ℤ} {task : Payload}
    (hget : Entries.get? (latestTaskSnapshots log) t = some task)
    (h : folded log t k = some (.num (.int n))) : intField? task k default = some n := by
  rw [intField?, folded_of_get? hget, h]
  rfl

/-! ## Stored fields -/

variable [Redaction.UnicodeTables]

/-- The fields of the stored enqueue event that the operations look at. -/
theorem get?_enqueue (args : QueueAddArgs) (taskId name : String) (level : ℤ) :
    let p := durablePayload (enqueuePayload args taskId name level)
    Entries.get? p "status" = some (.str "queued") ∧
      Entries.get? p "retry_count" = some (.num (.int 0)) ∧
      Entries.get? p "max_retries" = some (.num (.int 3)) := by
  refine ⟨get?_durable_const (by decide) rfl (by decide) (by decide), ?_, ?_⟩
  · rw [get?_durable (by decide)]; rfl
  · rw [get?_durable (by decide)]; rfl

end Perpetua.Queue

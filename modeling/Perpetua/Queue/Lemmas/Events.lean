import Perpetua.Queue.Lemmas.Snapshots

/-!
# The events that the operations write

Each payload, as it is stored, describes its event of the lifecycle. The kinds and statuses are too
short for redaction to touch.
-/

namespace Perpetua.Queue

open GossipBus

/-! ## Kinds and statuses -/

theorem TaskEvent.kind_mem : ∀ e : TaskEvent, e.kind ∈ taskEventKinds
  | .enqueue | .claim _ | .release _ .completed | .release _ .failed | .release _ .abandoned => by
      simp [kind, taskEventKinds]

/-- Kinds and statuses are too short for redaction to touch. -/
def short (s : String) : Prop := s.toList.length ≤ 22 ∧ '@' ∉ s.toList

theorem TaskEvent.short_kind : ∀ e : TaskEvent, short e.kind
  | .enqueue | .claim _ | .release _ .completed | .release _ .failed | .release _ .abandoned => by
      simp [short, kind]

theorem TaskEvent.short_status : ∀ e : TaskEvent, short e.status
  | .enqueue | .claim _ | .release _ .completed | .release _ .failed | .release _ .abandoned => by
      simp [short, status]

def Reason.ending : Reason → Ending
  | .complete _ => .completed
  | .fail .. => .failed
  | .abandon .. => .abandoned
  | .agentDead .. => .failed

theorem Release.keys_payload (r : Release) : (r.payload.map Prod.fst).Nodup := by
  obtain ⟨taskId, agentId, reason⟩ := r
  cases reason <;> (simp only [payload, List.map_cons, List.map_nil]; decide)

variable {τ : Type} [Redaction.UnicodeTables]

/-! ## Stored fields -/

/-- A key whose string value is stored redacted. -/
def plainKey (k : String) : Bool :=
  k ∉ Redaction.credentialKeys && k ≠ "_redaction_applied" && k ≠ "_memory_class"

theorem get?_durable {p : Payload} {k : String} (hk : plainKey k) :
    Entries.get? (durablePayload p) k = (Entries.get? p k).map Redaction.redactValue := by
  simp only [plainKey, Bool.and_eq_true, decide_eq_true_eq, ne_eq] at hk
  rw [get?_durablePayload, if_neg (by tauto)]
  congr 1
  funext v
  rw [if_neg hk.1.1]

theorem get?_durable_str {p : Payload} {k s : String} (hk : plainKey k)
    (h : Entries.get? p k = some (.str s)) :
    Entries.get? (durablePayload p) k = some (.str (Redaction.redactText s)) := by
  rw [get?_durable hk, h, Option.map_some, Redaction.redactValue]

/-- A short constant is stored as it is. -/
theorem get?_durable_const {p : Payload} {k s : String} (hk : plainKey k)
    (h : Entries.get? p k = some (.str s)) (hlen : s.toList.length ≤ 22)
    (hat : '@' ∉ s.toList) : Entries.get? (durablePayload p) k = some (.str s) := by
  rw [get?_durable_str hk h, Redaction.redactText_of_short hlen hat]

theorem field?_durable {p : Payload} {k s : String} (hk : plainKey k)
    (h : Entries.get? p k = some (.str s)) :
    field? (durablePayload p) k = some (Redaction.redactText s) := by
  rw [field?, get?_durable_str hk h]
  rfl

theorem field?_durable_const {p : Payload} {k s : String} (hk : plainKey k)
    (h : Entries.get? p k = some (.str s)) (hlen : s.toList.length ≤ 22) (hat : '@' ∉ s.toList) :
    field? (durablePayload p) k = some s := by
  rw [field?_durable hk h, Redaction.redactText_of_short hlen hat]

theorem get?_durable_none {p : Payload} {k : String} (hk : plainKey k)
    (h : Entries.get? p k = none) : Entries.get? (durablePayload p) k = none := by
  rw [get?_durable hk, h, Option.map_none]

/-! ## Rows that are events -/

/-- The row is the event `e` of the task. -/
structure RowDescribes (taskId : String) (e : TaskEvent) (row : GossipRow τ) : Prop where
  eventType : row.eventType = "heartbeat"
  taskId : Entries.get? row.payload "task_id" = some (.str taskId)
  describes : Describes e row.payload

theorem RowDescribes.isEventOf {taskId : String} {e : TaskEvent} {row : GossipRow τ}
    (h : RowDescribes taskId e row) (taskId' : String) :
    isEventOf taskId' row = decide (taskId = taskId') := by
  have hkind := e.kind_mem
  simp [Queue.isEventOf, isTaskEvent, field?, h.eventType, h.taskId, h.describes.kind,
    Json.Value.str?, hkind]

theorem RowDescribes.taskEvents {taskId : String} {e : TaskEvent} {row : GossipRow τ}
    (h : RowDescribes taskId e row) (log : GossipLog τ) :
    taskEvents taskId (log ++ [row]) = Queue.taskEvents taskId log ++ [row.payload] := by
  rw [taskEvents_concat, h.isEventOf, if_pos (by simp)]

theorem RowDescribes.taskEvents_ne {taskId taskId' : String} {e : TaskEvent} {row : GossipRow τ}
    (h : RowDescribes taskId e row) (log : GossipLog τ) (hne : taskId' ≠ taskId) :
    Queue.taskEvents taskId' (log ++ [row]) = Queue.taskEvents taskId' log := by
  rw [taskEvents_concat, h.isEventOf, if_neg (by simpa using Ne.symm hne)]

/-! ## The payloads -/

/-- A release payload names the agent, before it is stored. -/
def NamesReleased (agent : String) (p : Payload) : Prop :=
  Entries.get? p "agent_id" = some (.str agent) ∨
    Entries.get? p "agent_id" = none ∧ Entries.get? p "notes" =
      some (.str s!"Auto-released: agent {agent} dead; task returned to queue")

theorem rowDescribes_durable {p : Payload} {taskId : String} {e : TaskEvent}
    (hkeys : (p.map Prod.fst).Nodup) (htask : Entries.get? p "task_id" = some (.str taskId))
    (hkind : Entries.get? p "kind" = some (.str e.kind))
    (hstatus : Entries.get? p "status" = some (.str e.status))
    (hassigned : ∀ a, e = .claim a → Entries.get? p "assigned_agent" = some (.str a))
    (hclaimant : ∀ a ending, e = .release a ending → NamesReleased a p) (uuid : String) (now : τ) :
    RowDescribes (Redaction.redactText taskId) e ⟨uuid, now, "heartbeat", durablePayload p⟩ where
  eventType := rfl
  taskId := get?_durable_str (by decide) htask
  describes :=
    { keys := nodup_durablePayload hkeys
      kind := get?_durable_const (by decide) hkind e.short_kind.1 e.short_kind.2
      status := get?_durable_const (by decide) hstatus e.short_status.1 e.short_status.2
      assigned := fun a ha => get?_durable_str (by decide) (hassigned a ha)
      claimant := fun a ending ha => by
        rcases hclaimant a ending ha with hid | ⟨hid, hnotes⟩
        · exact Or.inl (get?_durable_str (by decide) hid)
        · exact Or.inr
            ⟨get?_durable_none (by decide) hid, get?_durable_str (by decide) hnotes⟩ }

theorem enqueuePayload_describes (a : QueueAddArgs) (taskId name : String) (level : ℤ)
    (uuid : String) (now : τ) :
    RowDescribes (Redaction.redactText taskId) .enqueue
      ⟨uuid, now, "heartbeat", durablePayload (enqueuePayload a taskId name level)⟩ := by
  refine rowDescribes_durable ?_ rfl rfl rfl (fun a ha => ?_) (fun a ending ha => ?_) uuid now
  · simp only [enqueuePayload, optionalField, List.map_append]
    cases a.sourceRef <;> cases a.expectedBaseSha <;> cases a.requiredAgentId <;>
      (simp only [Option.map_some, Option.map_none, List.map_cons, List.map_nil]; decide)
  · cases ha
  · cases ha

theorem claimPayload_describes (taskId agentId worktree uuid : String) (now : τ) :
    RowDescribes (Redaction.redactText taskId) (.claim agentId)
      ⟨uuid, now, "heartbeat", durablePayload (claimPayload taskId agentId worktree)⟩ := by
  refine rowDescribes_durable ?_ rfl rfl rfl (fun a ha => ?_) (fun a ending ha => ?_) uuid now
  · simp only [claimPayload, List.map_cons, List.map_nil]; decide
  · cases ha; rfl
  · cases ha

theorem Release.payload_describes (r : Release) (uuid : String) (now : τ) :
    RowDescribes (Redaction.redactText r.taskId) (.release r.agentId r.reason.ending)
      ⟨uuid, now, "heartbeat", durablePayload r.payload⟩ := by
  refine rowDescribes_durable r.keys_payload ?_ ?_ ?_ (fun a ha => ?_) (fun a ending ha => ?_)
    uuid now
  · obtain ⟨taskId, agentId, reason⟩ := r
    cases reason <;> rfl
  · obtain ⟨taskId, agentId, reason⟩ := r
    cases reason <;> rfl
  · obtain ⟨taskId, agentId, reason⟩ := r
    cases reason <;> rfl
  · cases ha
  · cases ha
    obtain ⟨taskId, agentId, reason⟩ := r
    cases reason with
    | complete _ => exact Or.inl rfl
    | fail _ _ _ => exact Or.inl rfl
    | abandon _ _ _ => exact Or.inl rfl
    | agentDead _ _ => exact Or.inr ⟨rfl, rfl⟩

/-- A presence pulse is no event of any task. -/
theorem presencePulse_not_event (agentId worktree : String) (timestamp : Json.Number)
    (uuid : String) (now : τ) (taskId : String) :
    isEventOf taskId ⟨uuid, now, "heartbeat",
      durablePayload (presencePulsePayload agentId worktree timestamp)⟩ = false := by
  have hkind : Entries.get? (durablePayload (presencePulsePayload agentId worktree timestamp)) "kind" =
      some (.str "agent_pulse") := get?_durable_const (by decide) rfl (by decide) (by decide)
  simp [isEventOf, isTaskEvent, field?, hkind, Json.Value.str?, taskEventKinds]

end Perpetua.Queue

import Mathlib.Data.List.Induction
import Perpetua.Queue.Board
import Perpetua.Queue.Lifecycle

/-!
# Snapshots and histories

The snapshot of a task is the fold of its events. `Describes` ties a stored payload to an event of
the lifecycle, and a history of described events determines what its snapshot says.
-/

namespace Perpetua.Queue

open GossipBus

variable {τ : Type}

/-! ## The events of one task -/

def isEventOf (taskId : String) (row : GossipRow τ) : Bool :=
  isTaskEvent row && field? row.payload "task_id" = some taskId

/-- The payloads of a task's events, oldest first. -/
def taskEvents (taskId : String) (log : GossipLog τ) : List Payload :=
  (log.filter (isEventOf taskId)).map (·.payload)

theorem taskEvents_append (taskId : String) (log more : GossipLog τ) :
    taskEvents taskId (log ++ more) = taskEvents taskId log ++ taskEvents taskId more := by
  simp [taskEvents]

theorem taskEvents_concat (taskId : String) (log : GossipLog τ) (row : GossipRow τ) :
    taskEvents taskId (log ++ [row]) =
      if isEventOf taskId row then taskEvents taskId log ++ [row.payload]
      else taskEvents taskId log := by
  rw [taskEvents_append]
  by_cases h : isEventOf taskId row <;> simp [taskEvents, h]

theorem get?_foldEvent {snapshots : Snapshots} {row : GossipRow τ} {taskId : String}
    (ht : taskId ≠ "") :
    Entries.get? (foldEvent snapshots row) taskId =
      if field? row.payload "task_id" = some taskId then
        some (Entries.update ((Entries.get? snapshots taskId).getD []) row.payload)
      else Entries.get? snapshots taskId := by
  unfold foldEvent
  cases hid : field? row.payload "task_id" with
  | none => rfl
  | some t =>
      simp only [Option.some.injEq]
      by_cases ht' : t = ""
      · rw [if_pos ht', if_neg (by rw [ht']; exact Ne.symm ht)]
      · rw [if_neg ht', Entries.get?_set]
        split
        · rename_i he; rw [he]
        · rfl

/-- The snapshot of a task is the fold of its own events. -/
theorem get?_latestTaskSnapshots {taskId : String} (ht : taskId ≠ "") (log : GossipLog τ) :
    Entries.get? (latestTaskSnapshots log) taskId =
      if taskEvents taskId log = [] then none
      else some ((taskEvents taskId log).foldl Entries.update []) := by
  induction log using List.reverseRecOn with
  | nil => rfl
  | append_singleton log row ih =>
      have hev := taskEvents_concat taskId log row
      unfold latestTaskSnapshots fetchTaskEvents at ih ⊢
      rw [List.filter_append, List.foldl_append]
      by_cases htask : isTaskEvent row
      · rw [List.filter_cons_of_pos htask, List.filter_nil, List.foldl_cons, List.foldl_nil,
          get?_foldEvent ht]
        by_cases hid : field? row.payload "task_id" = some taskId
        · rw [if_pos (by simp [isEventOf, htask, hid])] at hev
          rw [if_pos hid, hev, if_neg (by simp), ih, List.foldl_append]
          split
          · rename_i hnil; simp [hnil]
          · rfl
        · rw [if_neg (by simp [isEventOf, hid])] at hev
          rw [if_neg hid, hev, ih]
      · rw [if_neg (by simp [isEventOf, htask])] at hev
        rw [List.filter_cons_of_neg htask, List.filter_nil, List.foldl_nil, hev, ih]

/-! ## What the snapshots say -/

/-- Folding the events of a task gives status `claimed` with that agent. -/
def ClaimedBy (log : GossipLog τ) (taskId agent : String) : Prop :=
  ∃ snapshot, Entries.get? (latestTaskSnapshots log) taskId = some snapshot ∧
    Entries.get? snapshot "status" = some (.str "claimed") ∧
    Entries.get? snapshot "assigned_agent" = some (.str agent)

/-- The status that folding the events of a task gives. -/
def foldedStatus (log : GossipLog τ) (taskId : String) : Option String :=
  (Entries.get? (latestTaskSnapshots log) taskId).bind fun snapshot => field? snapshot "status"

/-- The folded status of a task whose last event has that status. -/
theorem foldedStatus_of_last {log : GossipLog τ} {t st : String} {before : List Payload} {p : Payload}
    (ht : t ≠ "") (hlog : taskEvents t log = before ++ [p]) (hkeys : (p.map Prod.fst).Nodup)
    (hst : Entries.get? p "status" = some (.str st)) : foldedStatus log t = some st := by
  rw [foldedStatus, get?_latestTaskSnapshots ht, hlog, if_neg (by simp), List.foldl_append,
    Option.bind_some, List.foldl_cons, List.foldl_nil, field?, Entries.get?_update,
    Entries.get?_reverse hkeys, hst]
  rfl

/-! ## Described events -/

def TaskEvent.kind : TaskEvent → String
  | .enqueue => "task_enqueue"
  | .claim _ => "task_claim"
  | .release _ .completed => "task_complete"
  | .release _ .failed => "task_failed"
  | .release _ .abandoned => "task_abandoned"

def TaskEvent.status : TaskEvent → String
  | .enqueue => "queued"
  | .claim _ => "claimed"
  | .release _ .completed => "completed"
  | .release _ .failed => "queued"
  | .release _ .abandoned => "abandoned"

/-- A release payload names the agent whose claim it ends. -/
def NamesClaimant [Redaction.UnicodeTables] (agent : String) (p : Payload) : Prop :=
  Entries.get? p "agent_id" = some (.str (Redaction.redactText agent)) ∨
    Entries.get? p "agent_id" = none ∧ Entries.get? p "notes" = some (.str
      (Redaction.redactText s!"Auto-released: agent {agent} dead; task returned to queue"))

/-- A stored payload is the event `e`. -/
structure Describes [Redaction.UnicodeTables] (e : TaskEvent) (p : Payload) : Prop where
  keys : (p.map Prod.fst).Nodup
  kind : Entries.get? p "kind" = some (.str e.kind)
  status : Entries.get? p "status" = some (.str e.status)
  assigned : ∀ a, e = .claim a →
    Entries.get? p "assigned_agent" = some (.str (Redaction.redactText a))
  claimant : ∀ a ending, e = .release a ending → NamesClaimant a p

def TaskState.status? : TaskState → Option String
  | .absent => none
  | .queued => some "queued"
  | .claimed _ => some "claimed"
  | .completed => some "completed"
  | .abandoned => some "abandoned"

theorem TaskState.next_status {s s' : TaskState} {e : TaskEvent} (h : s.next e = some s') :
    s'.status? = some e.status := by
  cases e with
  | enqueue => cases s <;> cases h <;> rfl
  | claim a => rw [next_claim h]; rfl
  | release b ending =>
      cases s with
      | claimed a =>
          rw [next] at h
          split at h
          · cases h; cases ending <;> rfl
          · cases h
      | _ => cases h

theorem TaskState.next_claimed {s : TaskState} {a : String} {e : TaskEvent}
    (h : s.next e = some (.claimed a)) : e = .claim a := by
  cases e with
  | enqueue => cases s <;> cases h
  | claim b => cases next_claim h; rfl
  | release b ending =>
      cases s with
      | claimed c =>
          rw [next] at h
          split at h
          · cases ending <;> cases h
          · cases h
      | _ => cases h

variable [Redaction.UnicodeTables]

/-- A history of a task together with the payloads that tell it. -/
structure Tells (hist : List (TaskEvent × Payload)) (s : TaskState) : Prop where
  describes : ∀ x ∈ hist, Describes x.1 x.2
  history : history .absent (hist.map Prod.fst) = some s

theorem Tells.nil : Tells [] .absent := ⟨nofun, rfl⟩

theorem Tells.concat {hist : List (TaskEvent × Payload)} {s s' : TaskState} (h : Tells hist s)
    {e : TaskEvent} {p : Payload} (hp : Describes e p) (he : s.next e = some s') :
    Tells (hist ++ [(e, p)]) s' := by
  refine ⟨fun x hx => ?_, ?_⟩
  · rcases List.mem_append.mp hx with hx | hx
    · exact h.describes x hx
    · rw [List.mem_singleton.mp hx]; exact hp
  · rw [List.map_append]
    exact history_concat h.history he

theorem Tells.of_concat {hist : List (TaskEvent × Payload)} {s' : TaskState} {x : TaskEvent × Payload}
    (h : Tells (hist ++ [x]) s') : ∃ s, Tells hist s ∧ s.next x.1 = some s' := by
  have hh := h.history
  rw [List.map_append] at hh
  obtain ⟨s, hs, hnext⟩ := history_append.mp hh
  obtain ⟨t, ht, he⟩ := history_cons.mp hnext
  cases he
  exact ⟨s, ⟨fun y hy => h.describes y (List.mem_append_left _ hy), hs⟩, ht⟩

/-- The snapshot that the payloads of a history fold to. -/
theorem Tells.fold {hist : List (TaskEvent × Payload)} {s : TaskState} (h : Tells hist s) :
    Entries.get? ((hist.map Prod.snd).foldl Entries.update []) "status" = s.status?.map .str ∧
      ∀ a, s = .claimed a →
        Entries.get? ((hist.map Prod.snd).foldl Entries.update []) "assigned_agent" =
          some (.str (Redaction.redactText a)) := by
  cases hist using List.reverseRecOn with
  | nil =>
      have := h.history
      cases this
      exact ⟨rfl, nofun⟩
  | append_singleton hist x =>
      obtain ⟨e, p⟩ := x
      obtain ⟨s₀, _, hnext⟩ := h.of_concat
      have hd := h.describes (e, p) (by simp)
      rw [List.map_append, List.foldl_append]
      simp only [List.map_cons, List.map_nil, List.foldl_cons, List.foldl_nil]
      constructor
      · rw [Entries.get?_update, Entries.get?_reverse hd.keys, hd.status,
          TaskState.next_status hnext]
        rfl
      · rintro a rfl
        rw [Entries.get?_update, Entries.get?_reverse hd.keys,
          hd.assigned a (TaskState.next_claimed hnext)]
        rfl

theorem Tells.nil_iff {hist : List (TaskEvent × Payload)} {s : TaskState} (h : Tells hist s) :
    hist = [] ↔ s = .absent := by
  constructor
  · rintro rfl
    have := h.history
    cases this
    rfl
  · rintro rfl
    cases hist using List.reverseRecOn with
    | nil => rfl
    | append_singleton hist x =>
        obtain ⟨s₀, _, hnext⟩ := h.of_concat
        have := TaskState.next_status hnext
        cases this

/-! ## What a history says -/

theorem Tells.foldedStatus {hist : List (TaskEvent × Payload)} {s : TaskState} (h : Tells hist s)
    {log : GossipLog τ} {taskId : String} (ht : taskId ≠ "")
    (hlog : hist.map Prod.snd = taskEvents taskId log) :
    Queue.foldedStatus log taskId = s.status? := by
  rw [Queue.foldedStatus, get?_latestTaskSnapshots ht, ← hlog]
  by_cases hnil : hist = []
  · rw [h.nil_iff.mp hnil, hnil]; rfl
  · rw [if_neg (by simpa using hnil), Option.bind_some, field?, h.fold.1]
    cases s <;> rfl

theorem Tells.claimedBy_iff {hist : List (TaskEvent × Payload)} {s : TaskState} (h : Tells hist s)
    {log : GossipLog τ} {taskId : String} (ht : taskId ≠ "")
    (hlog : hist.map Prod.snd = taskEvents taskId log) (a : String) :
    ClaimedBy log taskId a ↔ ∃ b, s = .claimed b ∧ Redaction.redactText b = a := by
  have hsnap := get?_latestTaskSnapshots ht log
  rw [← hlog] at hsnap
  obtain ⟨hstatus, hassigned⟩ := h.fold
  constructor
  · rintro ⟨snapshot, hget, hclaimed, hagent⟩
    by_cases hnil : hist = []
    · rw [hnil] at hsnap
      rw [hsnap] at hget
      cases hget
    · rw [hsnap, if_neg (by simpa using hnil), Option.some.injEq] at hget
      rw [← hget] at hclaimed hagent
      rw [hclaimed] at hstatus
      cases s with
      | claimed b =>
          rw [hassigned b rfl] at hagent
          exact ⟨b, rfl, Json.Value.str.inj (Option.some.inj hagent)⟩
      | absent => cases hstatus
      | queued => simp [TaskState.status?] at hstatus
      | completed => simp [TaskState.status?] at hstatus
      | abandoned => simp [TaskState.status?] at hstatus
  · rintro ⟨b, rfl, rfl⟩
    have hne : hist ≠ [] := fun hnil => by
      have := h.nil_iff.mp hnil
      cases this
    refine ⟨(hist.map Prod.snd).foldl Entries.update [], ?_, hstatus, hassigned b rfl⟩
    rw [hsnap, if_neg (by simpa using hne)]

end Perpetua.Queue

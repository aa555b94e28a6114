import Perpetua.Heartbeat.Theorems

/-!
# Cleanups and dead agents

An agent is judged by its last event and by its last mark. The release that a cleanup posts carries
the id of the dead agent, so it counts as the agent's own event.
-/

namespace Perpetua.Heartbeat

open GossipBus Queue

variable {τ : Type}

/-! ## What an agent is judged by -/

def isActivityOf (A : String) (row : GossipRow τ) : Bool :=
  isHeartbeatOf agentLivenessKinds row && field? row.payload "agent_id" = some A

def lastActivity (A : String) (log : GossipLog τ) : Option (GossipRow τ) :=
  (log.filter (isActivityOf A)).getLast?

/-- The event kills its agent or brings it back. -/
def isMark (row : GossipRow τ) : Bool :=
  (field? row.payload "kind").any (· ∈ ["agent_register", "agent_killed", "agent_pulse"])

/-- A kill that gives `null` as its reason is none. -/
def isKill (row : GossipRow τ) : Bool :=
  field? row.payload "kind" = some "agent_killed" &&
    !((Entries.get? row.payload "reason").getD (.str "")).isNull

/-- The last mark of the agent is a kill. -/
def isKilled (A : String) (log : GossipLog τ) : Bool :=
  ((log.filter (isActivityOf A)).filter isMark).getLast?.any isKill

/-- `find_agent_heartbeats` skips an agent that is not truthy, and raises on one that is no key. -/
def readableAgent (agent : Json.Value) : Bool := !agent.truthy || agent.key?.isSome

def readable (row : GossipRow τ) : Bool :=
  !isHeartbeatOf agentLivenessKinds row || readableAgent (valueOf row.payload "agent_id")

theorem lastActivity_concat (A : String) (log : GossipLog τ) (row : GossipRow τ) :
    lastActivity A (log ++ [row]) =
      if isActivityOf A row then some row else lastActivity A log := by
  rw [lastActivity, List.filter_append]
  by_cases h : isActivityOf A row
  · simp [h]
  · simp [h, lastActivity]

theorem isKilled_concat (A : String) (log : GossipLog τ) (row : GossipRow τ) :
    isKilled A (log ++ [row]) =
      if isActivityOf A row && isMark row then isKill row else isKilled A log := by
  rw [isKilled, List.filter_append, List.filter_append]
  by_cases hactivity : isActivityOf A row
  · by_cases hmark : isMark row
    · simp [hactivity, hmark]
    · simp [hactivity, hmark, isKilled]
  · simp [hactivity, isKilled]

theorem findAgentHeartbeats_concat (log : GossipLog τ) (row : GossipRow τ) :
    findAgentHeartbeats (log ++ [row]) = (findAgentHeartbeats log).bind fun agents =>
      if isHeartbeatOf agentLivenessKinds row then foldHeartbeat agents row else some agents := by
  rw [findAgentHeartbeats, fetchHeartbeatEvents, List.filter_append, List.foldlM_append]
  by_cases h : isHeartbeatOf agentLivenessKinds row
  · rw [List.filter_cons_of_pos h]
    simp [h, findAgentHeartbeats, fetchHeartbeatEvents]
  · rw [List.filter_cons_of_neg h]
    simp [h, findAgentHeartbeats, fetchHeartbeatEvents]

theorem foldHeartbeat_isSome (agents : List (Json.Key × AgentData τ)) (row : GossipRow τ) :
    (foldHeartbeat agents row).isSome = readableAgent (valueOf row.payload "agent_id") := by
  unfold foldHeartbeat readableAgent
  by_cases h : (valueOf row.payload "agent_id").truthy
  · simp [h]
  · simp [h]

theorem findAgentHeartbeats_isSome (log : GossipLog τ) :
    (findAgentHeartbeats log).isSome = log.all readable := by
  induction log using List.reverseRecOn with
  | nil => rfl
  | append_singleton log row ih =>
      rw [findAgentHeartbeats_concat, List.all_append, ← ih]
      cases findAgentHeartbeats log with
      | none => rfl
      | some agents =>
          by_cases h : isHeartbeatOf agentLivenessKinds row
          · simp [h, readable, foldHeartbeat_isSome]
          · simp [h, readable]

/-- The verdict on an agent takes two things of its record. -/
def AgentData.judged (data : AgentData τ) : τ × Bool :=
  (data.lastHeartbeatTs, !data.killedReason.isNull)

theorem field?_eq_some {p : Payload} {k s : String} : field? p k = some s ↔ valueOf p k = .str s := by
  rw [field?, valueOf]
  cases Entries.get? p k with
  | none => simp
  | some v => cases v <;> simp [Json.Value.str?]

theorem get?_foldHeartbeat_other {agents agents' : List (Json.Key × AgentData τ)} {row : GossipRow τ}
    (hfold : foldHeartbeat agents row = some agents') {A : String}
    (h : field? row.payload "agent_id" ≠ some A) :
    Entries.get? agents' (.text A) = Entries.get? agents (.text A) := by
  unfold foldHeartbeat at hfold
  dsimp only at hfold
  split at hfold
  · rw [Option.some.inj hfold]
  · obtain ⟨key, hkey, rfl⟩ := Option.map_eq_some_iff.mp hfold
    rw [Entries.get?_set, if_neg]
    rintro rfl
    exact h (field?_eq_some.mpr (Json.Value.key?_eq_text.mp hkey))

theorem judged_foldHeartbeat {agents agents' : List (Json.Key × AgentData τ)} {row : GossipRow τ}
    (hfold : foldHeartbeat agents row = some agents') {A : String} (hA : A ≠ "")
    (h : field? row.payload "agent_id" = some A) :
    (Entries.get? agents' (.text A)).map AgentData.judged =
      some (row.ts, if isMark row then isKill row
        else (Entries.get? agents (.text A)).any (!·.killedReason.isNull)) := by
  have hknown : (!((Entries.get? agents (.text A)).getD
      { lastHeartbeatTs := row.ts }).killedReason.isNull) =
      (Entries.get? agents (.text A)).any (!·.killedReason.isNull) := by
    cases Entries.get? agents (.text A) <;> rfl
  unfold foldHeartbeat at hfold
  simp only [field?_eq_some.mp h, Json.Value.truthy, hA, ne_eq, not_false_eq_true, decide_true,
    Bool.not_true, Bool.false_eq_true, if_false, Json.Value.key?, Option.map_some,
    Option.some.injEq] at hfold
  subst hfold
  simp only [Entries.get?_set, if_pos, Option.map_some, Option.some.injEq, AgentData.judged, ← hknown]
  cases hkind : field? row.payload "kind" with
  | none => simp [isMark, hkind]
  | some kind =>
      by_cases hregister : kind = "agent_register"
      · simp [isMark, isKill, hkind, hregister, Json.Value.isNull]
      by_cases hclaim : kind = "agent_claim"
      · simp [isMark, hkind, hclaim]
      by_cases hrelease : kind = "agent_release"
      · simp only [hrelease, isMark, isKill, hkind]
        simp
        split <;> exact ⟨rfl, rfl⟩
      by_cases hkilled : kind = "agent_killed"
      · simp [isMark, isKill, hkind, hkilled]
      by_cases hpulse : kind = "agent_pulse"
      · simp [isMark, isKill, hkind, hpulse, Json.Value.isNull]
      · simp [isMark, hkind, hregister, hclaim, hrelease, hkilled, hpulse]

/-- The verdict on an agent, read off the log. -/
theorem judged_findAgentHeartbeats {A : String} (hA : A ≠ "") {log : GossipLog τ}
    {agents : List (Json.Key × AgentData τ)} (h : findAgentHeartbeats log = some agents) :
    (Entries.get? agents (.text A)).map AgentData.judged =
      (lastActivity A log).map fun row => (row.ts, isKilled A log) := by
  induction log using List.reverseRecOn generalizing agents with
  | nil =>
      obtain rfl := Option.some.inj h
      rfl
  | append_singleton log row ih =>
      rw [findAgentHeartbeats_concat, Option.bind_eq_some_iff] at h
      obtain ⟨before, hbefore, h⟩ := h
      rw [lastActivity_concat, isKilled_concat]
      by_cases hkinds : isHeartbeatOf agentLivenessKinds row
      · rw [if_pos hkinds] at h
        by_cases hagent : field? row.payload "agent_id" = some A
        · have hactivity : isActivityOf A row := by simp [isActivityOf, hkinds, hagent]
          rw [judged_foldHeartbeat h hA hagent, if_pos hactivity, hactivity, Bool.true_and,
            Option.map_some]
          have hkilled : (Entries.get? before (.text A)).any (!·.killedReason.isNull) =
              isKilled A log := by
            have ih := ih hbefore
            cases hget : Entries.get? before (.text A) with
            | none =>
                rw [hget, Option.map_none, eq_comm, Option.map_eq_none_iff, lastActivity,
                  List.getLast?_eq_none_iff] at ih
                rw [isKilled, ih]
                rfl
            | some data =>
                rw [hget, Option.map_some, eq_comm, Option.map_eq_some_iff] at ih
                obtain ⟨last, -, hlast⟩ := ih
                exact (congrArg Prod.snd hlast).symm
          rw [hkilled]
        · have hactivity : isActivityOf A row = false := by simp [isActivityOf, hagent]
          rw [get?_foldHeartbeat_other h hagent, ih hbefore, hactivity]
          rfl
      · have hactivity : isActivityOf A row = false := by simp [isActivityOf, hkinds]
        rw [if_neg hkinds] at h
        rw [← Option.some.inj h, ih hbefore, hactivity]
        rfl

/-- Each agent is kept once, and an empty text is none. -/
theorem keys_findAgentHeartbeats {log : GossipLog τ} {agents : List (Json.Key × AgentData τ)}
    (h : findAgentHeartbeats log = some agents) :
    (agents.map Prod.fst).Nodup ∧ Entries.get? agents (.text "") = none := by
  induction log using List.reverseRecOn generalizing agents with
  | nil =>
      obtain rfl := Option.some.inj h
      exact ⟨List.nodup_nil, rfl⟩
  | append_singleton log row ih =>
      rw [findAgentHeartbeats_concat, Option.bind_eq_some_iff] at h
      obtain ⟨before, hbefore, h⟩ := h
      obtain ⟨hkeys, hempty⟩ := ih hbefore
      split at h
      · unfold foldHeartbeat at h
        dsimp only at h
        split at h
        · exact Option.some.inj h ▸ ⟨hkeys, hempty⟩
        · rename_i htruthy
          obtain ⟨key, hkey, rfl⟩ := Option.map_eq_some_iff.mp h
          refine ⟨Entries.nodup_set hkeys _ _, ?_⟩
          rw [Entries.get?_set, if_neg, hempty]
          rintro rfl
          rw [Json.Value.key?_eq_text.mp hkey] at htruthy
          exact htruthy rfl
      · exact Option.some.inj h ▸ ⟨hkeys, hempty⟩

section Verdict

variable [PyReal τ]

theorem AgentData.status_eq_dead {now : τ} {data : AgentData τ} :
    data.status now = .dead ↔
      data.judged.2 ∨ livenessStatus now data.judged.1 = .dead := by
  unfold status judged
  by_cases h : data.killedReason.isNull <;> simp [h]

/-- `find_agent_heartbeats` takes the agent for dead. -/
def Dead (A : String) (now : τ) (log : GossipLog τ) : Bool :=
  (deadAgents now log).any fun dead => Json.Key.text A ∈ dead

/-- An agent is dead if it was killed last, or has been silent too long. -/
theorem dead_iff {A : String} {now : τ} {log : GossipLog τ} :
    Dead A now log ↔ log.all readable ∧ A ≠ "" ∧ ∃ row, lastActivity A log = some row ∧
      (isKilled A log ∨ livenessStatus now row.ts = .dead) := by
  rw [← findAgentHeartbeats_isSome, Dead, deadAgents]
  cases hagents : findAgentHeartbeats log with
  | none => simp
  | some agents =>
      obtain ⟨hkeys, hempty⟩ := keys_findAgentHeartbeats hagents
      have hget : Dead A now log ↔
          ∃ data, Entries.get? agents (.text A) = some data ∧ data.status now = .dead := by
        simp only [Dead, deadAgents, hagents, Option.map_some, Option.any_some, decide_eq_true_eq,
          List.mem_map, List.mem_filter]
        constructor
        · rintro ⟨⟨_, data⟩, ⟨hmem, hdead⟩, rfl⟩
          exact ⟨data, Entries.get?_of_mem hkeys hmem, hdead⟩
        · rintro ⟨data, hdata, hdead⟩
          exact ⟨(.text A, data), ⟨Entries.mem_of_get? hdata, hdead⟩, rfl⟩
      rw [Dead, deadAgents, hagents] at hget
      rw [hget, Option.isSome_some, and_iff_right rfl]
      constructor
      · rintro ⟨data, hdata, hdead⟩
        have hA : A ≠ "" := by
          rintro rfl
          rw [hempty] at hdata
          cases hdata
        have hjudged := judged_findAgentHeartbeats hA hagents
        rw [hdata, Option.map_some, eq_comm, Option.map_eq_some_iff] at hjudged
        obtain ⟨row, hrow, hjudged⟩ := hjudged
        rw [AgentData.status_eq_dead, ← hjudged] at hdead
        exact ⟨hA, row, hrow, hdead⟩
      · rintro ⟨hA, row, hrow, hdead⟩
        have hjudged := judged_findAgentHeartbeats hA hagents
        rw [hrow, Option.map_some, Option.map_eq_some_iff] at hjudged
        obtain ⟨data, hdata, hjudged⟩ := hjudged
        refine ⟨data, hdata, ?_⟩
        rw [AgentData.status_eq_dead, hjudged]
        exact hdead

end Verdict

/-! ## The board and the queue on one bus -/

/-- The monitor and the task queue write to one log; the second half of a cleanup is an operation of
the queue. -/
structure Node (τ ι κ : Type) where
  monitor : System τ ι := {}
  claims : List (ClaimRow τ) := []
  operations : κ → Queue.Phase τ := fun _ => .start

variable {ι κ : Type}

def Node.queue (n : Node τ ι κ) : Queue.System τ κ :=
  { board := { log := n.monitor.log, claims := n.claims }, phase := n.operations }

inductive Happening (τ ι κ : Type)
  | monitor (a : Action τ ι)
  | queue (a : Queue.Action τ κ)
  /-- Any other writer of the bus. -/
  | other (row : GossipRow τ)

section Node

variable [DecidableEq ι] [DecidableEq κ] [PyReal τ] [Redaction.UnicodeTables]
  (ops : κ → Queue.Operation)

def Node.step (n : Node τ ι κ) : Happening τ ι κ → Node τ ι κ
  | .monitor a => { n with monitor := Heartbeat.step n.monitor a }
  | .queue a =>
      let after := Queue.step ops n.queue a
      { monitor := { n.monitor with log := after.board.log }
        claims := after.board.claims
        operations := after.phase }
  | .other row => { n with monitor := { n.monitor with log := n.monitor.log ++ [row] } }

def Post.agentId : Post → String
  | .register agentId _ _ _ _ | .claim agentId _ _ _ | .release agentId _ _ | .pulse agentId _ _
  | .kill agentId _ _ _ => agentId

/-- A kill is posted about an agent, not by it. -/
def Post.isKill : Post → Bool
  | .kill .. => true
  | _ => false

/-- The agent itself emits nothing. -/
def Silent (A : String) (_ : Node τ ι κ) : Happening τ ι κ → Prop
  | .monitor (.post p _) => p.isKill ∨ Redaction.redactText p.agentId ≠ A
  | .monitor _ => True
  | .queue (.announce k _ _ _) =>
      ∀ agentId, (ops k).agentId? = some agentId → Redaction.redactText agentId ≠ A
  | .queue _ => True
  | .other row => isActivityOf A row = false

/-- What a step writes, by its writer. -/
inductive Writes (n : Node τ ι κ) : Happening τ ι κ → GossipRow τ → Prop
  | post (p : Post) (env : WriteEnv τ) :
      Writes n (.monitor (.post p env)) ⟨env.uuid, env.now, "heartbeat", durablePayload p.payload⟩
  | release {i : ι} {env : WriteEnv τ} {readAt : ℕ} {claim : OpenClaim τ}
      {todo : List (OpenClaim τ)} {released : List Json.Value}
      (hphase : n.monitor.phase i = .releasing readAt (claim :: todo) released)
      (hadds : Adds env n.monitor.log) :
      Writes n (.monitor (.release i env))
        ⟨env.uuid, env.now, "heartbeat", durablePayload (autoReleasePayload claim)⟩
  | announce {k : κ} {worktree : String} {timestamp : Json.Number} {env : WriteEnv τ}
      {agentId : String} (hagent : (ops k).agentId? = some agentId) :
      Writes n (.queue (.announce k worktree timestamp env))
        ⟨env.uuid, env.now, "heartbeat",
          durablePayload (presencePulsePayload agentId worktree timestamp)⟩
  | task {a : Queue.Action τ κ} {row : GossipRow τ} (htask : isTaskEvent row) :
      Writes n (.queue a) row
  | other (row : GossipRow τ) : Writes n (.other row) row

variable {ops}

omit [DecidableEq ι] [DecidableEq κ] [PyReal τ] in
/-- A stored payload is a row of its own, or its uuid was there already. -/
theorem insertEvent_writes {n : Node τ ι κ} {h : Happening τ ι κ} {uuid : String} {now : τ}
    {payload : Payload}
    (hwrites : Writes ops n h ⟨uuid, now, "heartbeat", durablePayload payload⟩) {log : GossipLog τ}
    (hlog : (insertEvent uuid now "heartbeat" payload n.monitor.log).1 = log) :
    log = n.monitor.log ∨ ∃ row, log = n.monitor.log ++ [row] ∧ Writes ops n h row := by
  obtain ⟨added, hadded, hinsert⟩ := insertEvent_inserts uuid now "heartbeat" payload n.monitor.log
  rw [← hlog, hinsert]
  rcases hadded with rfl | ⟨rfl, _⟩
  · exact Or.inr ⟨_, rfl, hwrites⟩
  · exact Or.inl (List.append_nil _)

omit [DecidableEq ι] [DecidableEq κ] [PyReal τ] in
theorem writes_task {n : Node τ ι κ} {a : Queue.Action τ κ} {t : String} {e : TaskEvent}
    {row : GossipRow τ} (h : RowDescribes t e row) : Writes ops n (.queue a) row := by
  have hevent : isEventOf t row := by rw [h.isEventOf]; exact decide_eq_true rfl
  rw [isEventOf, Bool.and_eq_true] at hevent
  exact .task hevent.1

omit [DecidableEq ι] [PyReal τ] in
theorem queue_writes (n : Node τ ι κ) (a : Queue.Action τ κ) :
    (Queue.step ops n.queue a).board.log = n.monitor.log ∨
      ∃ row, (Queue.step ops n.queue a).board.log = n.monitor.log ++ [row] ∧
        Writes ops n (.queue a) row := by
  cases a with
  | read k ptAgentId worktree => rw [Queue.step, stepRead_board]; exact Or.inl rfl
  | abort k => rw [Queue.step]; split <;> exact Or.inl rfl
  | add args suffix env =>
      simp only [Queue.step, queueAdd]
      split
      · exact Or.inl rfl
      · split
        · exact insertEvent_writes (writes_task (enqueuePayload_describes ..)) rfl
        · exact Or.inl rfl
  | attempt k env =>
      simp only [Queue.step, stepAttempt]
      split
      · split
        · split
          · exact Or.inl rfl
          · split <;> exact Or.inl rfl
          · split
            · rename_i board hboard
              unfold tryAtomicClaim at hboard
              split at hboard
              · cases hboard
              · obtain rfl := Option.some.inj hboard
                exact insertEvent_writes (writes_task (claimPayload_describes ..)) rfl
            · exact Or.inl rfl
        · exact Or.inl rfl
      · exact Or.inl rfl
      · exact Or.inl rfl
      · rename_i r _ _ _
        split
        · exact Or.inl rfl
        · split <;> exact Or.inl rfl
        · split
          · rename_i board hboard
            unfold releaseClaimWithEvent at hboard
            simp only at hboard
            split at hboard
            · obtain rfl := Option.some.inj hboard
              exact insertEvent_writes (writes_task (r.payload_describes ..)) rfl
            · cases hboard
          · exact Or.inl rfl
      · exact Or.inl rfl
  | announce k worktree timestamp env =>
      simp only [Queue.step, stepAnnounce]
      split
      · rename_i agentId _ hagent _
        exact insertEvent_writes (.announce hagent) rfl
      · exact Or.inl rfl
      · exact Or.inl rfl

omit [DecidableEq κ] [PyReal τ] [DecidableEq ι] in
/-- A post that adds a row adds its own. -/
theorem emit_writes {n : Node τ ι κ} {h : Happening τ ι κ} {payload : Payload} {env : WriteEnv τ}
    (hwrites : Adds env n.monitor.log →
      Writes ops n h ⟨env.uuid, env.now, "heartbeat", durablePayload payload⟩) :
    (emit payload env n.monitor.log).getD n.monitor.log = n.monitor.log ∨
      ∃ row, (emit payload env n.monitor.log).getD n.monitor.log = n.monitor.log ++ [row] ∧
        Writes ops n h row := by
  rw [emit_getD]
  by_cases hadds : Adds env n.monitor.log
  · rw [if_pos hadds]
    exact Or.inr ⟨_, rfl, hwrites hadds⟩
  · rw [if_neg hadds]
    exact Or.inl rfl

theorem step_writes (n : Node τ ι κ) (h : Happening τ ι κ) :
    (n.step ops h).monitor.log = n.monitor.log ∨
      ∃ row, (n.step ops h).monitor.log = n.monitor.log ++ [row] ∧ Writes ops n h row := by
  cases h with
  | queue a => exact queue_writes n a
  | other row => exact Or.inr ⟨row, rfl, .other row⟩
  | monitor a =>
      cases a with
      | post p env => exact emit_writes fun _ => .post p env
      | read i now =>
          exact Or.inl (stepRead_log n.monitor i now)
      | release i env =>
          simp only [Node.step, Heartbeat.step, stepRelease]
          split
          · exact Or.inl rfl
          · rename_i readAt claim todo released hphase
            have hwrites (hadds : Adds env n.monitor.log) : Writes ops n (.monitor (.release i env))
                ⟨env.uuid, env.now, "heartbeat", durablePayload (autoReleasePayload claim)⟩ :=
              .release hphase hadds
            have hemit := emit_writes hwrites
            split
            · rename_i log hsome
              rw [hsome] at hemit
              exact hemit
            · exact Or.inl rfl
          · exact Or.inl rfl

/-! ## Releases for a dead agent -/

/-- The step of a cleanup adds a release in the name of the agent. -/
def ReleasesFor (A : String) (n : Node τ ι κ) : Happening τ ι κ → Prop
  | .monitor (.release i env) =>
      match n.monitor.phase i with
      | .releasing _ (claim :: _) _ =>
          Adds env n.monitor.log ∧ (Redaction.redactValue claim.agentId).key? = some (.text A)
      | _ => False
  | _ => False

/-- A release in the name of the agent comes when it was killed last, or is itself too old. -/
def Unrevived (A : String) (since : τ) (n : Node τ ι κ) : Happening τ ι κ → Prop
  | .monitor (.release i env) => ReleasesFor A n (.monitor (.release i env)) →
      isKilled A n.monitor.log ∨ livenessStatus since env.now = .dead
  | _ => True

/-- The step adds no event of an agent that is a list or an object. -/
def Readable (n : Node τ ι κ) : Happening τ ι κ → Prop
  | .monitor (.release i env) =>
      match n.monitor.phase i with
      | .releasing _ (claim :: _) _ =>
          Adds env n.monitor.log → readableAgent (Redaction.redactValue claim.agentId)
      | _ => True
  | .other row => readable row
  | _ => True

instance (A : String) (n : Node τ ι κ) (h : Happening τ ι κ) : Decidable (Silent ops A n h) :=
  match h with
  | .monitor (.post p _) =>
      inferInstanceAs (Decidable (p.isKill ∨ Redaction.redactText p.agentId ≠ A))
  | .monitor (.read _ _) | .monitor (.release _ _) => isTrue trivial
  | .queue (.add ..) | .queue (.read ..) | .queue (.attempt ..) | .queue (.abort _) => isTrue trivial
  | .queue (.announce k _ _ _) =>
      inferInstanceAs (Decidable (∀ agentId, (ops k).agentId? = some agentId →
        Redaction.redactText agentId ≠ A))
  | .other row => inferInstanceAs (Decidable (isActivityOf A row = false))

instance (A : String) (n : Node τ ι κ) (h : Happening τ ι κ) : Decidable (ReleasesFor A n h) := by
  unfold ReleasesFor
  split
  · split <;> infer_instance
  · infer_instance

instance (A : String) (since : τ) (n : Node τ ι κ) (h : Happening τ ι κ) :
    Decidable (Unrevived A since n h) := by
  unfold Unrevived
  split <;> infer_instance

instance (n : Node τ ι κ) (h : Happening τ ι κ) : Decidable (Readable n h) := by
  unfold Readable
  split
  · split <;> infer_instance
  · infer_instance
  · infer_instance

/-- The agent is dead from `since` on, at every time that is not before what the step wrote. -/
def StaysDead (ops : κ → Queue.Operation) (A : String) (since : τ) (n : Node τ ι κ)
    (h : Happening τ ι κ) : Prop :=
  ∀ now, since ≤ now →
    (∀ row, (n.step ops h).monitor.log = n.monitor.log ++ [row] → row.ts ≤ now) →
      Dead A now (n.step ops h).monitor.log

/-- What a cleanup writes is no activity of the agent. -/
def Uncounted (ops : κ → Queue.Operation) (A : String) (n : Node τ ι κ) (h : Happening τ ι κ) :
    Prop :=
  match h with
  | .monitor (.release _ _) | .queue (.attempt _ _) =>
      lastActivity A (n.step ops h).monitor.log = lastActivity A n.monitor.log
  | _ => True

omit [DecidableEq ι] [DecidableEq κ] [PyReal τ] in
theorem field?_autoRelease_kind (claim : OpenClaim τ) :
    field? (durablePayload (autoReleasePayload claim)) "kind" = some "agent_release" :=
  field?_durable_const (by decide) rfl (by simp) (by simp)

omit [DecidableEq ι] [DecidableEq κ] [PyReal τ] in
theorem isActivityOf_autoRelease {A : String} {claim : OpenClaim τ} {uuid : String} {now : τ} :
    isActivityOf A ⟨uuid, now, "heartbeat", durablePayload (autoReleasePayload claim)⟩ ↔
      (Redaction.redactValue claim.agentId).key? = some (.text A) := by
  rw [← agentKey_autoRelease, agentKey, Json.Value.key?_eq_text, ← field?_eq_some]
  simp [isActivityOf, isHeartbeatOf, field?_autoRelease_kind, agentLivenessKinds]

omit [DecidableEq ι] [DecidableEq κ] [PyReal τ] in
theorem field?_post_agentId (p : Post) :
    field? (durablePayload p.payload) "agent_id" = some (Redaction.redactText p.agentId) := by
  cases p <;> exact field?_durable (by decide) rfl

omit [DecidableEq ι] [DecidableEq κ] [PyReal τ] in
theorem isKill_of_post {p : Post} (h : p.isKill) (env : WriteEnv τ) :
    isKill ⟨env.uuid, env.now, "heartbeat", durablePayload p.payload⟩ := by
  cases p with
  | kill agentId worktree reason timestamp =>
      rw [isKill, field?_durable_const (by decide) rfl (by simp) (by simp),
        get?_durable (by decide)]
      rfl
  | register _ _ _ _ _ | claim _ _ _ _ | release _ _ _ | pulse _ _ _ => cases h

omit [PyReal τ] [DecidableEq ι] [DecidableEq κ] [Redaction.UnicodeTables] in
theorem isMark_of_isKill {row : GossipRow τ} (h : isKill row) : isMark row := by
  rw [isKill, Bool.and_eq_true, decide_eq_true_eq] at h
  simp [isMark, h.1]

omit [PyReal τ] [DecidableEq ι] [DecidableEq κ] [Redaction.UnicodeTables] in
/-- The queue's events are of other kinds. -/
theorem not_isHeartbeatOf_task {row : GossipRow τ} (h : isTaskEvent row) :
    isHeartbeatOf agentLivenessKinds row = false := by
  refine Bool.eq_false_iff.mpr fun hkind => ?_
  simp only [isTaskEvent, isHeartbeatOf, Bool.and_eq_true] at h hkind
  obtain ⟨kind, hkind₁, hkinds⟩ := (Option.any_eq_true _ _).mp h.2
  obtain ⟨kind', hkind₂, hkinds'⟩ := (Option.any_eq_true _ _).mp hkind.2
  obtain rfl := Option.some.inj (hkind₁.symm.trans hkind₂)
  simp only [taskEventKinds, agentLivenessKinds, List.mem_cons, List.not_mem_nil, or_false,
    decide_eq_true_eq] at hkinds hkinds'
  rcases hkinds with rfl | rfl | rfl | rfl | rfl <;> simp at hkinds'

omit [DecidableEq ι] [DecidableEq κ] [PyReal τ] in
/-- While an agent is silent, only a kill and the releases of cleanups count as its activity. -/
theorem activity_of_silent {A : String} {n : Node τ ι κ} {h : Happening τ ι κ} {row : GossipRow τ}
    (hsilent : Silent ops A n h) (hwrites : Writes ops n h row) (hactivity : isActivityOf A row) :
    (isKill row ∧ ∃ p env, h = .monitor (.post p env)) ∨
      ∃ i env, h = .monitor (.release i env) ∧ row.ts = env.now ∧
        isMark row = false ∧ ReleasesFor A n h := by
  cases hwrites with
  | post p env =>
      rcases hsilent with hkill | hother
      · exact Or.inl ⟨isKill_of_post hkill env, p, env, rfl⟩
      · simp only [isActivityOf, Bool.and_eq_true, decide_eq_true_eq, field?_post_agentId,
          Option.some.injEq] at hactivity
        exact absurd hactivity.2 hother
  | @release i env readAt claim todo released hphase hadds =>
      refine Or.inr ⟨i, env, rfl, rfl, ?_, ?_⟩
      · simp [isMark, field?_autoRelease_kind]
      · simp only [ReleasesFor, hphase]
        exact ⟨hadds, isActivityOf_autoRelease.mp hactivity⟩
  | announce hagent =>
      simp only [isActivityOf, Bool.and_eq_true, decide_eq_true_eq] at hactivity
      rw [field?_durable (s := _) (by decide) rfl] at hactivity
      exact absurd (Option.some.inj hactivity.2) (hsilent _ hagent)
  | task htask =>
      rw [isActivityOf, not_isHeartbeatOf_task htask] at hactivity
      cases hactivity
  | other row =>
      rw [Silent] at hsilent
      rw [hsilent] at hactivity
      cases hactivity

omit [DecidableEq ι] [DecidableEq κ] [PyReal τ] in
/-- What a step adds is readable, unless it is another writer's or the release of a claim whose agent is
not. -/
theorem readable_of_writes {n : Node τ ι κ} {h : Happening τ ι κ} {row : GossipRow τ}
    (hreadable : Readable n h) (hwrites : Writes ops n h row) : readable row := by
  have htext : ∀ {payload : Payload} {agentId : String},
      field? payload "agent_id" = some agentId → readableAgent (valueOf payload "agent_id") := by
    intro payload agentId hagent
    rw [field?_eq_some.mp hagent]
    simp [readableAgent, Json.Value.key?]
  cases hwrites with
  | post p env => simp [readable, htext (field?_post_agentId p)]
  | release hphase hadds =>
      simp only [Readable, hphase] at hreadable
      rw [readable, valueOf_durable (by decide)]
      exact (Bool.or_eq_true _ _).mpr (.inr (hreadable hadds))
  | announce hagent =>
      rw [readable, htext (field?_durable (by decide) rfl), Bool.or_true]
  | task htask =>
      rw [readable, not_isHeartbeatOf_task htask]
      rfl
  | other row => exact hreadable

/-! ## Runs -/

variable (ops) in
/-- What the release of a claim adds. -/
theorem release_log {n : Node τ ι κ} {i : ι} {env : WriteEnv τ} {readAt : ℕ} {claim : OpenClaim τ}
    {todo : List (OpenClaim τ)} {released : List Json.Value}
    (hphase : n.monitor.phase i = .releasing readAt (claim :: todo) released)
    (hadds : Adds env n.monitor.log) :
    (n.step ops (.monitor (.release i env))).monitor.log = n.monitor.log ++
      [⟨env.uuid, env.now, "heartbeat", durablePayload (autoReleasePayload claim)⟩] := by
  have hfresh : n.monitor.log.any (·.eventUuid = env.uuid) = false := by simpa using hadds.2
  simp [Node.step, Heartbeat.step, stepRelease, hphase, emit, hadds.1, insertEvent, hfresh,
    System.move]

variable (ops) in
/-- A release in the agent's name is its last activity. -/
theorem releasesFor_log {A : String} {n : Node τ ι κ} {i : ι} {env : WriteEnv τ}
    (h : ReleasesFor A n (.monitor (.release i env))) :
    ∃ row, (n.step ops (.monitor (.release i env))).monitor.log = n.monitor.log ++ [row] ∧
      row.ts = env.now ∧ isActivityOf A row ∧ isMark row = false ∧ row ∉ n.monitor.log := by
  simp only [ReleasesFor] at h
  split at h
  · rename_i readAt claim todo released hphase
    obtain ⟨hadds, hagent⟩ := h
    refine ⟨_, release_log ops hphase hadds, rfl, isActivityOf_autoRelease.mpr hagent, ?_, ?_⟩
    · simp [isMark, field?_autoRelease_kind]
    · intro hmem
      exact hadds.2 _ hmem rfl
  · exact h.elim

theorem not_releasesFor {A : String} {n : Node τ ι κ} {h : Happening τ ι κ}
    (huncounted : Uncounted ops A n h) : ¬ ReleasesFor A n h := by
  match h with
  | .queue _ | .other _ | .monitor (.post _ _) | .monitor (.read _ _) => exact id
  | .monitor (.release i env) =>
      intro hfor
      obtain ⟨row, hlog, -, hactivity, -, hnew⟩ := releasesFor_log ops hfor
      rw [Uncounted, hlog, lastActivity_concat, if_pos hactivity] at huncounted
      exact hnew (List.mem_of_mem_filter (List.mem_of_getLast? huncounted.symm))

theorem Uncounted.of_not_releasesFor {A : String} {n : Node τ ι κ} {h : Happening τ ι κ}
    (hfor : ¬ ReleasesFor A n h) (hsilent : Silent ops A n h) : Uncounted ops A n h := by
  have hkeep (hnone : ∀ row, Writes ops n h row → isActivityOf A row = false) :
      lastActivity A (n.step ops h).monitor.log = lastActivity A n.monitor.log := by
    rcases step_writes n h with hlog | ⟨row, hlog, hwrites⟩
    · rw [hlog]
    · rw [hlog, lastActivity_concat, hnone row hwrites]
      rfl
  match h with
  | .other _ | .monitor (.post _ _) | .monitor (.read _ _) => trivial
  | .queue (.add ..) | .queue (.read ..) | .queue (.announce ..) | .queue (.abort _) => trivial
  | .queue (.attempt k env) =>
      refine hkeep fun row hwrites => Bool.eq_false_iff.mpr fun hactivity => ?_
      rcases activity_of_silent hsilent hwrites hactivity with ⟨-, _, _, heq⟩ | ⟨_, _, heq, -⟩
      · cases heq
      · cases heq
  | .monitor (.release i env) =>
      refine hkeep fun row hwrites => Bool.eq_false_iff.mpr fun hactivity => ?_
      rcases activity_of_silent hsilent hwrites hactivity with ⟨-, _, _, heq⟩ | ⟨_, _, -, -, -, h⟩
      · cases heq
      · exact hfor h

theorem dead_step {A : String} {since : τ} {n : Node τ ι κ} {h : Happening τ ι κ}
    (hdead : Dead A since n.monitor.log) (hsilent : Silent ops A n h)
    (hunrevived : Unrevived A since n h) (hreadable : Readable n h) :
    Dead A since (n.step ops h).monitor.log := by
  rcases step_writes n h with hlog | ⟨row, hlog, hwrites⟩
  · rw [hlog]; exact hdead
  rw [hlog]
  rw [dead_iff] at hdead ⊢
  obtain ⟨hall, hA, last, hlast, hdead⟩ := hdead
  have hall' : (n.monitor.log ++ [row]).all readable := by
    simp only [List.all_append, List.all_cons, List.all_nil, Bool.and_true, Bool.and_eq_true]
    exact ⟨hall, readable_of_writes hreadable hwrites⟩
  rw [lastActivity_concat, isKilled_concat]
  by_cases hactivity : isActivityOf A row
  · refine ⟨hall', hA, row, if_pos hactivity, ?_⟩
    rcases activity_of_silent hsilent hwrites hactivity with ⟨hkill, -⟩ | ⟨i, env, rfl, hts, hmark, hfor⟩
    · simp [hactivity, isMark_of_isKill hkill, hkill]
    · rw [hmark, Bool.and_false, if_neg Bool.false_ne_true, hts]
      exact hunrevived hfor
  · simp only [hactivity, Bool.false_and, Bool.false_eq_true, if_false]
    exact ⟨hall', hA, last, hlast, hdead⟩

omit [Redaction.UnicodeTables] [DecidableEq ι] [DecidableEq κ] in
theorem livenessStatus_eq_dead {now last : τ} :
    livenessStatus now last = .dead ↔ ¬ now - last < ((60 : ℤ) : τ) ∧
      ¬ now - last < ((300 : ℤ) : τ) ∧ ¬ now - last < ((1800 : ℤ) : τ) := by
  unfold livenessStatus
  by_cases hactive : now - last < ((60 : ℤ) : τ)
  · simp [hactive]
  by_cases hidle : now - last < ((300 : ℤ) : τ)
  · simp [hactive, hidle]
  by_cases hstalled : now - last < ((1800 : ℤ) : τ)
  · simp [hactive, hidle, hstalled]
  · simp [hactive, hidle, hstalled]

variable [PyReal.Clock τ]

omit [Redaction.UnicodeTables] [DecidableEq ι] [DecidableEq κ] in
theorem livenessStatus_later {now now' last : τ} (h : livenessStatus now last = .dead)
    (hle : now ≤ now') : livenessStatus now' last = .dead := by
  rw [livenessStatus_eq_dead] at h ⊢
  refine ⟨fun hlt => h.1 ?_, fun hlt => h.2.1 ?_, fun hlt => h.2.2 ?_⟩
  · exact PyReal.Clock.age_lt hle hlt
  · exact PyReal.Clock.age_lt hle hlt
  · exact PyReal.Clock.age_lt hle hlt

omit [Redaction.UnicodeTables] [DecidableEq ι] [DecidableEq κ] in
theorem Dead.later {A : String} {now now' : τ} {log : GossipLog τ}
    (h : Dead A now log) (hle : now ≤ now') : Dead A now' log := by
  rw [dead_iff] at h ⊢
  obtain ⟨hall, hA, row, hrow, hdead⟩ := h
  exact ⟨hall, hA, row, hrow, hdead.imp_right fun hlate => livenessStatus_later hlate hle⟩

/-- If the agent stays dead, it is dead at some time. -/
theorem StaysDead.dead {A : String} {since : τ} {n : Node τ ι κ} {h : Happening τ ι κ}
    (hstays : StaysDead ops A since n h) : ∃ now, Dead A now (n.step ops h).monitor.log := by
  rcases (step_writes n h : (n.step ops h).monitor.log = _ ∨ _) with hlog | ⟨row, hlog, -⟩
  · exact ⟨since, hstays since (PyReal.Clock.le_refl _) fun row hrow => by simp [hlog] at hrow⟩
  · have honly : ∀ row', (n.step ops h).monitor.log = n.monitor.log ++ [row'] → row'.ts = row.ts := by
      intro row' hrow'
      rw [hlog] at hrow'
      rw [List.singleton_inj.mp (List.append_cancel_left hrow')]
    by_cases hlate : since < row.ts
    · exact ⟨row.ts, hstays row.ts (PyReal.Clock.le_of_lt hlate) fun row' hrow' =>
        honly row' hrow' ▸ PyReal.Clock.le_refl _⟩
    · exact ⟨since, hstays since (PyReal.Clock.le_refl _) fun row' hrow' =>
        honly row' hrow' ▸ PyReal.Clock.le_of_not_lt hlate⟩

theorem Readable.of_staysDead {A : String} {since : τ} {n : Node τ ι κ} {h : Happening τ ι κ}
    (hstays : StaysDead ops A since n h) : Readable n h := by
  obtain ⟨now, hdead⟩ := hstays.dead
  have hall := (dead_iff.mp hdead).1
  match h with
  | .queue _ | .monitor (.post _ _) | .monitor (.read _ _) => trivial
  | .other row =>
      rw [Node.step, List.all_append, Bool.and_eq_true] at hall
      exact (List.all_eq_true.mp hall.2) row List.mem_cons_self
  | .monitor (.release i env) =>
      simp only [Readable]
      split
      · rename_i readAt claim todo released hphase
        intro hadds
        rw [release_log ops hphase hadds, List.all_append, Bool.and_eq_true] at hall
        have hrow := (List.all_eq_true.mp hall.2) _ List.mem_cons_self
        rw [readable, valueOf_durable (by decide)] at hrow
        have hkind : ∀ uuid, isHeartbeatOf agentLivenessKinds (⟨uuid, env.now, "heartbeat",
            durablePayload (autoReleasePayload claim)⟩ : GossipRow τ) = true := fun uuid => by
          simp [isHeartbeatOf, field?_autoRelease_kind, agentLivenessKinds]
        rw [hkind] at hrow
        exact hrow
      · trivial

theorem Unrevived.of_staysDead {A : String} {since : τ} {n : Node τ ι κ} {h : Happening τ ι κ}
    (hstays : StaysDead ops A since n h) : Unrevived A since n h := by
  match h with
  | .queue _ | .other _ | .monitor (.post _ _) | .monitor (.read _ _) => trivial
  | .monitor (.release i env) =>
      intro hfor
      obtain ⟨row, hlog, hts, hactivity, hmark, -⟩ := releasesFor_log ops hfor
      -- The release is the agent's last activity, and no mark.
      have hverdict (now : τ) (hsince : since ≤ now) (hpast : env.now ≤ now) :
          isKilled A n.monitor.log ∨ livenessStatus now env.now = .dead := by
        have hdead := hstays now hsince fun row' hrow' => by
          rw [hlog] at hrow'
          obtain rfl := List.singleton_inj.mp (List.append_cancel_left hrow')
          rw [hts]
          exact hpast
        rw [hlog, dead_iff, lastActivity_concat, if_pos hactivity, isKilled_concat, hmark,
          Bool.and_false, if_neg Bool.false_ne_true] at hdead
        obtain ⟨-, -, last, hlast, hdead⟩ := hdead
        obtain rfl := Option.some.inj hlast
        rwa [hts] at hdead
      by_cases hlate : since < env.now
      · have hnow := hverdict env.now (PyReal.Clock.le_of_lt hlate) (PyReal.Clock.le_refl _)
        refine hnow.imp_right fun hdead => ?_
        rw [livenessStatus_eq_dead] at hdead
        exact absurd (PyReal.Clock.age_self env.now 60 (by decide)) hdead.1
      · exact hverdict since (PyReal.Clock.le_refl _) (PyReal.Clock.le_of_not_lt hlate)

omit [DecidableEq ι] [DecidableEq κ] [PyReal.Clock τ] in
theorem Unrevived.of_not_releasesFor {A : String} {since : τ} {n : Node τ ι κ}
    {h : Happening τ ι κ} (hfor : ¬ ReleasesFor A n h) : Unrevived A since n h := by
  match h with
  | .queue _ | .other _ | .monitor (.post _ _) | .monitor (.read _ _) => trivial
  | .monitor (.release i env) => exact fun hname => absurd hname hfor

/-- A dead agent that stays silent. It stays dead exactly as long as no event is added that the monitor
cannot read and each release that a cleanup posts in its name comes after a kill, or is itself too old;
and those releases count as its activity. -/
theorem staysDead_iff {A : String} {since : τ} {n : Node τ ι κ}
    (hdead : Dead A since n.monitor.log) {hs : List (Happening τ ι κ)}
    (hsilent : Machine.Along (Node.step ops) (Silent ops A) n hs) :
    (Machine.Along (Node.step ops) (fun n h => StaysDead ops A since n h ∧ Uncounted ops A n h) n hs ↔
      Machine.Along (Node.step ops) (fun n h => ¬ ReleasesFor A n h ∧ Readable n h) n hs) ∧
    (Machine.Along (Node.step ops) (StaysDead ops A since) n hs ↔
      Machine.Along (Node.step ops) (fun n h => Unrevived A since n h ∧ Readable n h) n hs) := by
  have hstays (h : Machine.Along (Node.step ops)
      (fun n h => Unrevived A since n h ∧ Readable n h) n hs) :
      Machine.Along (Node.step ops) (StaysDead ops A since) n hs := by
    have hboth := Machine.along_and.mpr ⟨hsilent, h⟩
    have hkept := hboth.strengthen
      (fun (n : Node τ ι κ) h (hn : Dead A since n.monitor.log) hc =>
        dead_step hn hc.1 hc.2.1 hc.2.2) hdead
    refine hkept.mono ?_
    intro n h ⟨hn, hs, hu, hr⟩ now hsince _
    exact Dead.later (dead_step hn hs hu hr) hsince
  refine ⟨⟨fun h => h.mono fun _ _ hc => ⟨not_releasesFor hc.2, .of_staysDead hc.1⟩, fun h => ?_⟩,
    fun h => h.mono fun _ _ hc => ⟨.of_staysDead hc, .of_staysDead hc⟩, hstays⟩
  refine Machine.along_and.mpr ⟨hstays (h.mono fun _ _ hc => ⟨.of_not_releasesFor hc.1, hc.2⟩), ?_⟩
  exact (Machine.along_and.mpr ⟨h, hsilent⟩).mono fun _ _ hc => .of_not_releasesFor hc.1.1 hc.2

end Node

section CleanupRuns

attribute [local instance] sampleTables

/-- `A` has claimed a task at time 0. -/
def claimedBoard : Node ℚ (Fin 1) (Fin 1) :=
  { monitor := Machine.run step {} [postSample (.claim "A" "t" "w" "") "u0"] }

/-- The cleanup at time 2000 releases the claim of `A`. -/
def cleanupAt2000 : List (Happening ℚ (Fin 1) (Fin 1)) :=
  [.monitor (.read (Fin.last 0) 2000), .monitor (.read (Fin.last 0) 2000),
    .monitor (.release (Fin.last 0) ⟨.granted, "u1", 2000⟩)]

def queueCleanup : Fin 1 → Queue.Operation := fun _ => .cleanup ["A"]

/-- `A` is killed before the cleanup comes. -/
def killedBoard : Node ℚ (Fin 1) (Fin 1) :=
  claimedBoard.step queueCleanup
    (.monitor (postSample (.kill "A" "w" "stuck" (.int 0)) "u2"))

theorem staysDead_killed :
    Machine.Along (Node.step queueCleanup) (StaysDead queueCleanup "A" 2000) killedBoard
      cleanupAt2000 :=
  (staysDead_iff (by decide +kernel) (by decide +kernel)).2.mpr (by decide +kernel)

theorem not_staysDead_cleanup :
    Dead "A" 2000 claimedBoard.monitor.log ∧
      Machine.Along (Node.step queueCleanup) (Silent queueCleanup "A") claimedBoard cleanupAt2000 ∧
      ¬ Machine.Along (Node.step queueCleanup) (StaysDead queueCleanup "A" 2000) claimedBoard
        cleanupAt2000 := by
  refine ⟨by decide +kernel, by decide +kernel, ?_⟩
  rintro ⟨-, -, hrelease, -⟩
  have hunrevived := Unrevived.of_staysDead hrelease
  revert hunrevived
  decide +kernel

end CleanupRuns

end Perpetua.Heartbeat

import Mathlib.Data.Int.Range
import Perpetua.Coordination.Lemmas.Buffers
import Perpetua.Heartbeat.Theorems

/-!
# Drains that overlap other calls

A drain emits the claims it read, and they stay in the buffer until its marker is in the log. What
comes in between may emit them again, or leave the watermark itself in the buffer.
-/

namespace Perpetua.Coordination

open GossipBus Queue Heartbeat

variable {τ ι : Type}

/-! ## One event of the log -/

theorem getReorderBuffers_concat (log : GossipLog τ) (row : GossipRow τ) :
    getReorderBuffers (log ++ [row]) =
      if isHeartbeatOf reorderBufferKinds row then
        (getReorderBuffers log).bind fun buffers => foldReorderEvent buffers row
      else getReorderBuffers log := by
  rw [getReorderBuffers, fetchHeartbeatEvents, List.filter_append, List.foldlM_append]
  by_cases h : isHeartbeatOf reorderBufferKinds row
  · rw [List.filter_cons_of_pos h, if_pos h]
    simp [getReorderBuffers, fetchHeartbeatEvents]
  · rw [List.filter_cons_of_neg h, if_neg h]
    simp [getReorderBuffers, fetchHeartbeatEvents]

/-- The log folds to buffers, and they are in order. -/
def Readable (log : GossipLog τ) : Prop :=
  ∃ buffers, getReorderBuffers log = some buffers ∧
    ∀ agent b, Entries.get? buffers agent = some b → Filed b.buffer

theorem bufferOf_eq {log : GossipLog τ} {buffers : List (String × ReorderBuffer)}
    (h : getReorderBuffers log = some buffers) (agent : String) :
    bufferOf agent log = (Entries.get? buffers agent).getD { agentId := agent } := by
  rw [bufferOf, h, Option.bind_some]

theorem Readable.filed {log : GossipLog τ} (h : Readable log) (agent : String) :
    Filed (bufferOf agent log).buffer := by
  obtain ⟨buffers, hbuffers, hfiled⟩ := h
  rw [bufferOf_eq hbuffers]
  cases hget : Entries.get? buffers agent with
  | none => exact Filed.nil
  | some b => exact hfiled agent b hget

/-- An event that makes one agent's buffer `b`. -/
theorem readable_of_set {log : GossipLog τ} {row : GossipRow τ} {stored : String}
    {f : ReorderBuffer → ReorderBuffer} (h : Readable log)
    (hkind : isHeartbeatOf reorderBufferKinds row)
    (hfiled : ∀ b, Filed b.buffer → Filed (f b).buffer)
    (hfold : ∀ buffers, foldReorderEvent buffers row =
      some (if stored = "" then buffers else
        Entries.set buffers stored (f ((Entries.get? buffers stored).getD { agentId := stored })))) :
    Readable (log ++ [row]) ∧ ∀ agent, bufferOf agent (log ++ [row]) =
      if stored = agent ∧ agent ≠ "" then f (bufferOf agent log) else bufferOf agent log := by
  have hown := h.filed stored
  obtain ⟨buffers, hbuffers, hall⟩ := h
  have hafter := getReorderBuffers_concat log row
  rw [if_pos hkind, hbuffers, Option.bind_some, hfold] at hafter
  rw [bufferOf_eq hbuffers] at hown
  by_cases hempty : stored = ""
  · rw [if_pos hempty] at hafter
    refine ⟨⟨buffers, hafter, hall⟩, fun agent => ?_⟩
    rw [bufferOf_eq hafter, bufferOf_eq hbuffers, if_neg]
    rintro ⟨rfl, hne⟩
    exact hne hempty
  · rw [if_neg hempty] at hafter
    refine ⟨⟨_, hafter, fun agent b hget => ?_⟩, fun agent => ?_⟩
    · rw [Entries.get?_set] at hget
      split at hget
      · rw [← Option.some.inj hget]
        exact hfiled _ hown
      · exact hall agent b hget
    · rw [bufferOf_eq hafter, bufferOf_eq hbuffers, Entries.get?_set]
      by_cases hagent : stored = agent
      · subst hagent
        rw [if_pos rfl, if_pos ⟨rfl, hempty⟩, Option.getD_some]
      · rw [if_neg hagent, if_neg (fun h => hagent h.1)]

section Posts

variable [Redaction.UnicodeTables]

/-- The claim as it is stored. -/
def ClaimSequence.stored (claim : ClaimSequence) : ClaimSequence :=
  { claim with
    agentId := Redaction.redactText claim.agentId
    task := Redaction.redactText claim.task
    notes := Redaction.redactText claim.notes
    worktree := Redaction.redactText claim.worktree }

/-- What is posted for `agentId` is folded into the buffer of `agent`. -/
def Targets (agent agentId : String) : Prop := Redaction.redactText agentId = agent ∧ agent ≠ ""

instance (agent agentId : String) : Decidable (Targets agent agentId) :=
  inferInstanceAs (Decidable (_ ∧ _))

@[simp] theorem claimNum_stored (claim : ClaimSequence) :
    claim.stored.claimNum = claim.claimNum := by
  rw [ClaimSequence.stored]

theorem fromPayload_stored (claim : ClaimSequence) :
    ClaimSequence.fromPayload (durablePayload claim.toPayload) = some claim.stored := by
  have hagent := field?_durable (p := claim.toPayload) (k := "agent_id") (by decide) rfl
  have htask := field?_durable (p := claim.toPayload) (k := "task") (by decide) rfl
  have hnotes := field?_durable (p := claim.toPayload) (k := "notes") (by decide) rfl
  have hworktree := field?_durable (p := claim.toPayload) (k := "worktree") (by decide) rfl
  have hnum : Entries.get? (durablePayload claim.toPayload) "claim_num" =
      some (.num (.int claim.claimNum)) := get?_durable (by decide)
  have htime : Entries.get? (durablePayload claim.toPayload) "timestamp" =
      some (.num claim.timestamp) := get?_durable (by decide)
  simp [ClaimSequence.fromPayload, hagent, htask, hnotes, hworktree, hnum, htime, asInt?, number?,
    ClaimSequence.stored]

theorem claim_posted {log : GossipLog τ} (h : Readable log) (claim : ClaimSequence) (uuid : String)
    (now : τ) :
    Readable (log ++ [⟨uuid, now, "heartbeat", durablePayload claim.toPayload⟩]) ∧
      ∀ agent, bufferOf agent (log ++ [⟨uuid, now, "heartbeat", durablePayload claim.toPayload⟩]) =
        if Targets agent claim.agentId then ((bufferOf agent log).addClaim claim.stored).2
        else bufferOf agent log := by
  have hagent := field?_durable (p := claim.toPayload) (k := "agent_id") (by decide) rfl
  have hkind : field? (durablePayload claim.toPayload) "kind" = some "claim_sequence" :=
    field?_durable_const (by decide) rfl (by simp) (by simp)
  refine readable_of_set (f := fun b => (b.addClaim claim.stored).2) h ?_
    (fun b hb => filed_addClaim hb _) fun buffers => ?_
  · simp [isHeartbeatOf, hkind, reorderBufferKinds]
  · simp only [foldReorderEvent, hagent, hkind, fromPayload_stored]
    split
    · rfl
    · simp

theorem marker_posted {log : GossipLog τ} (h : Readable log) (agentId : String) (count : ℕ)
    (newWatermark : ℤ) (uuid : String) (now : τ) :
    Readable (log ++
        [⟨uuid, now, "heartbeat", durablePayload (drainMarker agentId count newWatermark)⟩]) ∧
      ∀ agent, bufferOf agent (log ++
        [⟨uuid, now, "heartbeat", durablePayload (drainMarker agentId count newWatermark)⟩]) =
          if Targets agent agentId then (bufferOf agent log).markDrained newWatermark
          else bufferOf agent log := by
  have hagent := field?_durable (p := drainMarker agentId count newWatermark) (k := "agent_id")
    (by decide) rfl
  have hkind : field? (durablePayload (drainMarker agentId count newWatermark)) "kind" =
      some "buffer_drained" := field?_durable_const (by decide) rfl (by simp) (by simp)
  have hnew : Entries.get? (durablePayload (drainMarker agentId count newWatermark))
      "new_watermark" = some (.num (.int newWatermark)) := get?_durable (by decide)
  refine readable_of_set (f := fun b => b.markDrained newWatermark) h ?_
    (fun b hb => filed_markDrained hb _) fun buffers => ?_
  · simp [isHeartbeatOf, hkind, reorderBufferKinds]
  · simp only [foldReorderEvent, hagent, hkind, hnew]
    split
    · rfl
    · simp [asInt?]

end Posts

/-! ## Emissions -/

section Runs

variable [DecidableEq ι] [Redaction.UnicodeTables]

/-- The numbers that a step emits for the agent: those that its claim takes out in order, and those
that its drain reads. -/
def emissions (agent : String) (s : BufferSystem τ ι) : BufferAction τ ι → List ℤ
  | .claim claim env =>
      if Adds env s.log ∧ Targets agent claim.agentId then
        numbers ((bufferOf agent s.log).addClaim claim.stored).1
      else []
  | .read i agentId =>
      if s.drain i = .start ∧ agentId = agent then numbers (bufferOf agent s.log).drain.1 else []
  | .mark _ _ => []

/-- The numbers that a drain has emitted and that no marker has taken out of the agent's buffer. -/
def outstanding (agent : String) : Drain → List ℤ
  | .start => []
  | .emitted agentId claims _ | .unmarked agentId claims =>
      if agentId = agent then numbers claims else []
  | .marked agentId claims =>
      if agentId = agent ∧ ¬ Targets agent agentId then numbers claims else []

/-- Everything that waits is past the watermark after the step. -/
def KeepsAbove (agent : String) (s : BufferSystem τ ι) (a : BufferAction τ ι) : Prop :=
  (bufferOf agent (s.step a).log).Above

/-- While numbers of a drain are outstanding, no claim closes the gap below one of them and no other
drain reads one; and a marker that raises the watermark raises it to a number that does not wait. -/
def Undisturbed (agent : String) (s : BufferSystem τ ι) : BufferAction τ ι → Prop
  | .claim claim env => Adds env s.log → Targets agent claim.agentId →
      claim.claimNum = (bufferOf agent s.log).watermark →
        ∀ i, ∀ m ∈ outstanding agent (s.drain i), (bufferOf agent s.log).watermark ≤ m →
          ¬ (bufferOf agent s.log).HoldsTo m
  | .read i agentId => s.drain i = .start → agentId = agent →
      ∀ j, ∀ m ∈ outstanding agent (s.drain j),
        Entries.get? (bufferOf agent s.log).buffer m = none
  | .mark i env => Adds env s.log →
      match s.drain i with
      | .emitted agentId _ newWatermark => Targets agent agentId →
          newWatermark ≤ (bufferOf agent s.log).watermark ∨
            Entries.get? (bufferOf agent s.log).buffer newWatermark = none
      | _ => True

/-! ## Steps -/

omit [DecidableEq ι] in
theorem post_log (s : BufferSystem τ ι) (payload : Payload) (env : WriteEnv τ) :
    (s.post payload env).log =
      if Adds env s.log then s.log ++ [⟨env.uuid, env.now, "heartbeat", durablePayload payload⟩]
      else s.log := emit_getD payload env s.log

omit [Redaction.UnicodeTables] in
theorem readDrain_log (s : BufferSystem τ ι) (i : ι) (agentId : String) :
    (readDrain s i agentId).log = s.log := by
  unfold readDrain
  split
  · split
    · rfl
    · split <;> rfl
  · rfl
  · rfl

omit [Redaction.UnicodeTables] in
/-- What a drain has emitted after its reading is what it read. -/
theorem readDrain_drain {s : BufferSystem τ ι} (h : Readable s.log) (i : ι) (agentId : String) :
    (readDrain s i agentId).drain =
      if s.drain i = .start then
        Function.update s.drain i
          (if (bufferOf agentId s.log).buffer = [] then .unmarked agentId []
            else .emitted agentId (bufferOf agentId s.log).drain.1 (bufferOf agentId s.log).drain.2)
      else s.drain := by
  obtain ⟨buffers, hbuffers, -⟩ := h
  unfold readDrain
  rw [bufferOf_eq hbuffers, hbuffers]
  cases hdrain : s.drain i with
  | start =>
      cases hget : Entries.get? buffers agentId with
      | none => simp [hget, BufferSystem.move]
      | some b =>
          simp only [hget, Option.getD_some, if_pos]
          split <;> rfl
  | emitted _ _ _ | marked _ _ | unmarked _ _ => simp

/-- What the log reads for the agent after a claim or a marker. -/
theorem claim_step {s : BufferSystem τ ι} (h : Readable s.log) (claim : ClaimSequence)
    (env : WriteEnv τ) :
    Readable (s.step (.claim claim env)).log ∧ ∀ agent,
      bufferOf agent (s.step (.claim claim env)).log =
        if Adds env s.log ∧ Targets agent claim.agentId then
          ((bufferOf agent s.log).addClaim claim.stored).2
        else bufferOf agent s.log := by
  rw [BufferSystem.step, post_log]
  by_cases hadds : Adds env s.log
  · simpa [hadds] using claim_posted h claim env.uuid env.now
  · simp [hadds, h]

theorem mark_step {s : BufferSystem τ ι} (h : Readable s.log) {i : ι} {agentId : String}
    {claims : List ClaimSequence} {newWatermark : ℤ}
    (hdrain : s.drain i = .emitted agentId claims newWatermark) (env : WriteEnv τ) :
    Readable (s.step (.mark i env)).log ∧ ∀ agent,
      bufferOf agent (s.step (.mark i env)).log =
        if Adds env s.log ∧ Targets agent agentId then
          (bufferOf agent s.log).markDrained newWatermark
        else bufferOf agent s.log := by
  have hlog : (s.step (.mark i env)).log =
      (s.post (drainMarker agentId claims.length newWatermark) env).log := by
    simp [BufferSystem.step, markDrain, hdrain, BufferSystem.move]
  rw [hlog, post_log]
  by_cases hadds : Adds env s.log
  · simpa [hadds] using marker_posted h agentId claims.length newWatermark env.uuid env.now
  · simp [hadds, h]

theorem mark_drain {s : BufferSystem τ ι} {i : ι} {agentId : String}
    {claims : List ClaimSequence} {newWatermark : ℤ}
    (hdrain : s.drain i = .emitted agentId claims newWatermark) (env : WriteEnv τ) :
    (s.step (.mark i env)).drain = Function.update s.drain i
      (if Adds env s.log then .marked agentId claims else .unmarked agentId claims) := by
  simp [BufferSystem.step, markDrain, hdrain, BufferSystem.move, BufferSystem.post]

theorem mark_idle {s : BufferSystem τ ι} {i : ι} (env : WriteEnv τ)
    (hdrain : ∀ agentId claims newWatermark, s.drain i ≠ .emitted agentId claims newWatermark) :
    s.step (.mark i env) = s := by
  rw [BufferSystem.step, markDrain]
  split
  · rename_i hemitted; exact absurd hemitted (hdrain _ _ _)
  · rfl

theorem Readable.step {s : BufferSystem τ ι} (h : Readable s.log) (a : BufferAction τ ι) :
    Readable (s.step a).log := by
  cases a with
  | claim claim env => exact (claim_step h claim env).1
  | read i agentId =>
      rw [BufferSystem.step, readDrain_log]
      exact h
  | mark i env =>
      by_cases hdrain : ∃ agentId claims newWatermark,
          s.drain i = .emitted agentId claims newWatermark
      · obtain ⟨agentId, claims, newWatermark, hdrain⟩ := hdrain
        exact (mark_step h hdrain env).1
      · rw [mark_idle env fun agentId claims newWatermark hemitted =>
          hdrain ⟨agentId, claims, newWatermark, hemitted⟩]
        exact h

/-! ## Undisturbed runs -/

/-- What the numbers emitted so far and the state have to do with each other. -/
structure Kept (agent : String) (history : List ℤ) (s : BufferSystem τ ι) : Prop where
  readable : Readable s.log
  above : (bufferOf agent s.log).Above
  fresh : history.Nodup
  past : ∀ m ∈ history, m < (bufferOf agent s.log).watermark ∨
    ∃ i, m ∈ outstanding agent (s.drain i)
  below : ∀ i agentId claims newWatermark, s.drain i = .emitted agentId claims newWatermark →
    ∀ m ∈ numbers claims, m < newWatermark

theorem Kept.claim {agent : String} {history : List ℤ} {s : BufferSystem τ ι}
    (h : Kept agent history s) {claim : ClaimSequence} {env : WriteEnv τ}
    (hc : Undisturbed agent s (.claim claim env)) :
    Kept agent (history ++ emissions agent s (.claim claim env)) (s.step (.claim claim env)) := by
  obtain ⟨hreadable, hbuffer⟩ := claim_step h.readable claim env
  have hfiled := h.readable.filed agent
  specialize hbuffer agent
  by_cases hadds : Adds env s.log ∧ Targets agent claim.agentId
  · rw [if_pos hadds] at hbuffer
    rw [emissions, if_pos hadds]
    refine ⟨hreadable, ?_, ?_, fun m hm => ?_, h.below⟩
    · rw [hbuffer]
      exact above_addClaim hfiled h.above _
    · refine List.nodup_append.mpr ⟨h.fresh, nodup_addClaim hfiled _, ?_⟩
      rintro m hm _ hnew rfl
      obtain ⟨hdue, hlow, hholds⟩ := (mem_addClaim hfiled).mp hnew
      rw [claimNum_stored] at hdue
      rcases h.past m hm with hpast | ⟨i, hi⟩
      · omega
      · simp only [Undisturbed] at hc
        exact hc hadds.1 hadds.2 hdue i m hi hlow hholds
    · rw [hbuffer]
      rcases List.mem_append.mp hm with hm | hm
      · have hle := watermark_addClaim_le hfiled claim.stored
        exact (h.past m hm).imp_left fun hlt => lt_of_lt_of_le hlt hle
      · exact Or.inl (lt_watermark_addClaim hfiled hm)
  · rw [if_neg hadds] at hbuffer
    rw [emissions, if_neg hadds, List.append_nil]
    exact ⟨hreadable, by rw [hbuffer]; exact h.above, h.fresh, by rw [hbuffer]; exact h.past, h.below⟩

theorem Kept.read {agent : String} {history : List ℤ} {s : BufferSystem τ ι}
    (h : Kept agent history s) {i : ι} {agentId : String}
    (hc : Undisturbed agent s (.read i agentId)) :
    Kept agent (history ++ emissions agent s (.read i agentId)) (s.step (.read i agentId)) := by
  have hlog := readDrain_log s i agentId
  have hdrain := readDrain_drain h.readable i agentId
  rw [BufferSystem.step]
  by_cases hstart : s.drain i = .start
  · rw [if_pos hstart] at hdrain
    have hother (m : ℤ) (j : ι) (hm : m ∈ outstanding agent (s.drain j)) :
        m ∈ outstanding agent ((readDrain s i agentId).drain j) := by
      have hne : j ≠ i := by
        rintro rfl
        rw [hstart] at hm
        exact absurd hm List.not_mem_nil
      rwa [hdrain, Function.update_of_ne hne]
    refine ⟨by rw [hlog]; exact h.readable, by rw [hlog]; exact h.above, ?_, fun m hm => ?_, ?_⟩
    · rw [emissions]
      split
      · rename_i hagent
        obtain ⟨-, rfl⟩ := hagent
        have hfiled := h.readable.filed agentId
        refine List.nodup_append.mpr ⟨h.fresh, nodup_drain hfiled, ?_⟩
        rintro m hm _ hnew rfl
        have hheld := (mem_drain hfiled).mp hnew
        rcases h.past m hm with hpast | ⟨j, hj⟩
        · have hlow := h.above m hheld
          omega
        · rw [hc hstart rfl j m hj] at hheld
          cases hheld
      · rw [List.append_nil]
        exact h.fresh
    · rw [hlog]
      rcases List.mem_append.mp hm with hm | hm
      · exact (h.past m hm).imp_right (Exists.imp fun j hj => hother m j hj)
      · rw [emissions] at hm
        split at hm
        · rename_i hagent
          obtain ⟨-, rfl⟩ := hagent
          have hbuffer : (bufferOf agentId s.log).buffer ≠ [] := by
            intro hempty
            have hheld := (mem_drain (h.readable.filed agentId)).mp hm
            rw [hempty] at hheld
            cases hheld
          refine Or.inr ⟨i, ?_⟩
          rw [hdrain, Function.update_self, if_neg hbuffer, outstanding, if_pos rfl]
          exact hm
        · exact absurd hm List.not_mem_nil
    · intro j agentId' claims newWatermark hj
      rw [hdrain] at hj
      by_cases hji : j = i
      · subst hji
        rw [Function.update_self] at hj
        split at hj
        · cases hj
        · cases hj
          exact fun m hm => lt_drain (h.readable.filed _) hm
      · rw [Function.update_of_ne hji] at hj
        exact h.below j _ _ _ hj
  · rw [if_neg hstart] at hdrain
    rw [emissions, if_neg (fun h => hstart h.1), List.append_nil]
    exact ⟨by rw [hlog]; exact h.readable, by rw [hlog]; exact h.above, h.fresh,
      by rw [hlog, hdrain]; exact h.past, by rw [hdrain]; exact h.below⟩

theorem Kept.mark {agent : String} {history : List ℤ} {s : BufferSystem τ ι}
    (h : Kept agent history s) {i : ι} {env : WriteEnv τ} (hc : Undisturbed agent s (.mark i env)) :
    Kept agent (history ++ emissions agent s (.mark i env)) (s.step (.mark i env)) := by
  rw [emissions, List.append_nil]
  by_cases hemitted : ∃ agentId claims newWatermark,
      s.drain i = .emitted agentId claims newWatermark
  · obtain ⟨agentId, claims, newWatermark, hi⟩ := hemitted
    obtain ⟨hreadable, hbuffer⟩ := mark_step h.readable hi env
    have hdrain := mark_drain hi env
    specialize hbuffer agent
    refine ⟨hreadable, ?_, h.fresh, fun m hm => ?_, fun j agentId' claims' newWatermark' hj => ?_⟩
    · rw [hbuffer]
      split
      · rename_i hadds
        have hfree := hc hadds.1
        rw [hi] at hfree
        exact (above_markDrained h.above).mpr (hfree hadds.2)
      · exact h.above
    · rcases h.past m hm with hpast | ⟨j, hj⟩
      · refine Or.inl (lt_of_lt_of_le hpast ?_)
        rw [hbuffer]
        split
        · exact le_max_left _ _
        · exact le_rfl
      · by_cases hji : j = i
        · subst hji
          rw [hi, outstanding] at hj
          split at hj
          · rename_i hagent
            have hlt := h.below j _ _ _ hi m hj
            by_cases hadds : Adds env s.log ∧ Targets agent agentId
            · -- The marker takes the numbers of its drain out.
              refine Or.inl (lt_of_lt_of_le hlt ?_)
              rw [hbuffer, if_pos hadds]
              exact le_max_right _ _
            · refine Or.inr ⟨j, ?_⟩
              rw [hdrain, Function.update_self]
              by_cases hadds' : Adds env s.log
              · rw [if_pos hadds', outstanding, if_pos ⟨hagent, fun ht => hadds ⟨hadds', ht⟩⟩]
                exact hj
              · rw [if_neg hadds', outstanding, if_pos hagent]
                exact hj
          · exact absurd hj List.not_mem_nil
        · exact Or.inr ⟨j, by rwa [hdrain, Function.update_of_ne hji]⟩
    · rw [hdrain] at hj
      by_cases hji : j = i
      · rw [hji, Function.update_self] at hj
        split at hj <;> cases hj
      · rw [Function.update_of_ne hji] at hj
        exact h.below j _ _ _ hj
  · rw [mark_idle env fun agentId claims newWatermark hi =>
      hemitted ⟨agentId, claims, newWatermark, hi⟩]
    exact h

theorem Kept.step {agent : String} {history : List ℤ} {s : BufferSystem τ ι}
    (h : Kept agent history s) {a : BufferAction τ ι} (hc : Undisturbed agent s a) :
    Kept agent (history ++ emissions agent s a) (s.step a) := by
  cases a with
  | claim claim env => exact h.claim hc
  | read i agentId => exact h.read hc
  | mark i env => exact h.mark hc

/-! ## Orderly runs -/

/-- What is outstanding has been emitted. -/
structure Emitted (agent : String) (history : List ℤ) (s : BufferSystem τ ι) : Prop where
  readable : Readable s.log
  outstanding : ∀ i, ∀ m ∈ outstanding agent (s.drain i), m ∈ history

theorem Emitted.step {agent : String} {history : List ℤ} {s : BufferSystem τ ι}
    (h : Emitted agent history s) (a : BufferAction τ ι) :
    Emitted agent (history ++ emissions agent s a) (s.step a) := by
  refine ⟨h.readable.step a, fun j m hm => ?_⟩
  cases a with
  | claim claim env => exact List.mem_append_left _ (h.outstanding j m hm)
  | read i agentId =>
      rw [BufferSystem.step, readDrain_drain h.readable] at hm
      split at hm
      · rename_i hstart
        by_cases hji : j = i
        · rw [hji, Function.update_self] at hm
          split at hm
          · simp [Coordination.outstanding, numbers] at hm
          · rw [Coordination.outstanding] at hm
            split at hm
            · rename_i hagent
              refine List.mem_append_right _ ?_
              rw [emissions, if_pos ⟨hstart, hagent⟩, ← hagent]
              exact hm
            · exact absurd hm List.not_mem_nil
        · rw [Function.update_of_ne hji] at hm
          exact List.mem_append_left _ (h.outstanding j m hm)
      · exact List.mem_append_left _ (h.outstanding j m hm)
  | mark i env =>
      refine List.mem_append_left _ ?_
      by_cases hemitted : ∃ agentId claims newWatermark,
          s.drain i = .emitted agentId claims newWatermark
      · obtain ⟨agentId, claims, newWatermark, hi⟩ := hemitted
        rw [mark_drain hi] at hm
        by_cases hji : j = i
        · refine h.outstanding i m ?_
          rw [hji, Function.update_self] at hm
          rw [hi, Coordination.outstanding]
          split at hm
          · rw [Coordination.outstanding] at hm
            split at hm
            · rename_i hboth
              rwa [if_pos hboth.1]
            · exact absurd hm List.not_mem_nil
          · exact hm
        · rw [Function.update_of_ne hji] at hm
          exact h.outstanding j m hm
      · rw [mark_idle env fun agentId claims newWatermark hi =>
          hemitted ⟨agentId, claims, newWatermark, hi⟩] at hm
        exact h.outstanding j m hm

/-- A step that emits only new numbers and leaves all that waits past the watermark. -/
theorem Undisturbed.of_orderly {agent : String} {history : List ℤ} {s : BufferSystem τ ι}
    (h : Emitted agent history s) (habove : (bufferOf agent s.log).Above) {a : BufferAction τ ι}
    (hkeeps : KeepsAbove agent s a) (hfresh : ∀ m ∈ history, m ∉ emissions agent s a) :
    Undisturbed agent s a := by
  have hfiled := h.readable.filed agent
  cases a with
  | claim claim env =>
      intro hadds htargets hdue i m hm hlow hholds
      refine hfresh m (h.outstanding i m hm) ?_
      rw [emissions, if_pos ⟨hadds, htargets⟩]
      rw [mem_addClaim hfiled, claimNum_stored]
      exact ⟨hdue, hlow, hholds⟩
  | read i agentId =>
      intro hstart hagent j m hm
      by_contra hheld
      refine hfresh m (h.outstanding j m hm) ?_
      rw [emissions, if_pos ⟨hstart, hagent⟩]
      exact (mem_drain hfiled).mpr (Option.isSome_iff_ne_none.mpr hheld)
  | mark i env =>
      intro hadds
      split
      · rename_i agentId claims newWatermark hi
        intro htargets
        obtain ⟨-, hbuffer⟩ := mark_step h.readable hi env
        rw [KeepsAbove, hbuffer, if_pos ⟨hadds, htargets⟩] at hkeeps
        exact (above_markDrained habove).mp hkeeps
      · trivial

/-- From a log without claims of the agent and with no drain under way: all that waits is past the
watermark at every time and no number is emitted twice, exactly in the undisturbed runs. -/
theorem orderly_iff {agent : String} {s : BufferSystem τ ι}
    (hlog : ∀ row ∈ s.log, isHeartbeatOf reorderBufferKinds row = false)
    (hstart : ∀ i, s.drain i = .start) (steps : List (BufferAction τ ι)) :
    (Machine.Along BufferSystem.step (KeepsAbove agent) s steps ∧
      (Machine.outputs BufferSystem.step (emissions agent) s steps).Nodup) ↔
        Machine.Along BufferSystem.step (Undisturbed agent) s steps := by
  have hbuffers : getReorderBuffers s.log = some [] := by
    rw [getReorderBuffers, fetchHeartbeatEvents, List.filter_eq_nil_iff.mpr]
    · rfl
    · intro row hrow
      rw [hlog row hrow]
      exact Bool.false_ne_true
  have hreadable : Readable s.log := ⟨[], hbuffers, by simp⟩
  have hempty : bufferOf agent s.log = { agentId := agent } := by rw [bufferOf_eq hbuffers]; rfl
  have habove : (bufferOf agent s.log).Above := by rw [hempty]; simp [ReorderBuffer.Above]
  have hidle (i : ι) (m : ℤ) : m ∉ outstanding agent (s.drain i) := by
    rw [hstart i]
    exact List.not_mem_nil
  constructor
  · rintro ⟨hkeeps, hnodup⟩
    rw [Machine.along_iff]
    rintro pre a post rfl
    rw [Machine.outputs_append, Machine.outputs, List.nodup_append] at hnodup
    rw [Machine.along_append] at hkeeps
    have hemitted : Emitted agent ([] ++ Machine.outputs BufferSystem.step (emissions agent) s pre)
        (Machine.run BufferSystem.step s pre) :=
      Machine.Along.history (C := fun _ _ => True) (fun _ _ a h _ => h.step a)
        ⟨hreadable, fun i m hm => absurd hm (hidle i m)⟩ (Machine.along_of_forall fun _ _ _ => trivial)
    rw [List.nil_append] at hemitted
    refine .of_orderly hemitted ?_ hkeeps.2.1 fun m hm hnew => ?_
    · exact hkeeps.1.invariant
        (I := fun s : BufferSystem τ ι => (bufferOf agent s.log).Above) (fun _ _ _ h => h) habove
    · exact hnodup.2.2 m hm m (List.mem_append_left _ hnew) rfl
  · intro h
    have hkept : Kept agent [] s :=
      ⟨hreadable, habove, List.nodup_nil, fun m hm => absurd hm List.not_mem_nil,
        fun i _ _ _ hi => by rw [hstart i] at hi; cases hi⟩
    refine ⟨?_, ?_⟩
    · rw [Machine.along_iff]
      rintro pre a post rfl
      rw [Machine.along_append] at h
      exact ((h.1.history (fun _ _ _ hk hc => hk.step hc) hkept).step h.2.1).above
    · exact (h.history (fun _ _ _ hk hc => hk.step hc) hkept).fresh

end Runs

section SampleBuffers

attribute [local instance] sampleTables

instance holdsToDecidable (b : ReorderBuffer) (m : ℤ) : Decidable (b.HoldsTo m) :=
  inferInstanceAs (Decidable (∀ k, _ ≤ k → k ≤ m → _))

instance undisturbedDecidable (agent : String) (s : BufferSystem ℚ (Fin 1))
    (a : BufferAction ℚ (Fin 1)) : Decidable (Undisturbed agent s a) := by
  cases a with
  | claim claim env => unfold Undisturbed; infer_instance
  | read i agentId => unfold Undisturbed; infer_instance
  | mark i env => unfold Undisturbed; dsimp only; split <;> infer_instance

def claimOf (claimNum : ℤ) : ClaimSequence :=
  { agentId := "A", claimNum, task := "t", timestamp := .int 0 }

def sampleClaim (claimNum : ℤ) (uuid : String) : BufferAction ℚ (Fin 1) :=
  .claim (claimOf claimNum) ⟨.granted, uuid, 0⟩

/-- A drain of the claim 2, and the claim 3 after it. -/
def drainThenClaim : List (BufferAction ℚ (Fin 1)) :=
  [sampleClaim 2 "u0", .read (Fin.last 0) "A", .mark (Fin.last 0) ⟨.granted, "u1", 0⟩,
    sampleClaim 3 "u2"]

theorem orderly_drainThenClaim :
    Machine.Along BufferSystem.step (KeepsAbove "A") {} drainThenClaim ∧
      (Machine.outputs BufferSystem.step (emissions "A") {} drainThenClaim).Nodup :=
  (orderly_iff (fun _ hrow => absurd hrow List.not_mem_nil) (fun _ => rfl) drainThenClaim).mpr
    (by decide +kernel)

/-- The claim 3 comes between the reading of the drain and its marker. -/
def claimInDrain : List (BufferAction ℚ (Fin 1)) :=
  [sampleClaim 2 "u0", .read (Fin.last 0) "A", sampleClaim 3 "u1",
    .mark (Fin.last 0) ⟨.granted, "u2", 0⟩]

theorem not_orderly_claimInDrain :
    ¬ (Machine.Along BufferSystem.step (KeepsAbove "A") {} claimInDrain ∧
      (Machine.outputs BufferSystem.step (emissions "A") {} claimInDrain).Nodup) := by
  rintro ⟨⟨-, -, -, hmark, -⟩, -⟩
  have hlow := hmark 3 (by decide +kernel)
  revert hlow
  decide +kernel

end SampleBuffers

end Perpetua.Coordination

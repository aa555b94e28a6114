import Mathlib.Algebra.Group.Action.Defs
import Mathlib.Algebra.Order.BigOperators.Group.List
import Perpetua.Transition.DistanceTheorems
import Perpetua.Transition.EquivocationTheorems
import Perpetua.Transition.Theorems

/-!
# Bounds of the manager

The caches and buffers stay within their limits over every run, also when the audit log fails, and a
call takes a bounded number of decisions.
-/

namespace OrderedDict

variable {κ ν : Type*} [DecidableEq κ]

theorem size_erase_le (d : OrderedDict κ ν) (k : κ) : (d.erase k).size ≤ d.size :=
  List.length_filter_le ..

theorem size_erase_lt {d : OrderedDict κ ν} {k : κ} {v : ν} (h : d.get? k = some v) :
    (d.erase k).size < d.size :=
  List.length_filter_lt_length_iff_exists.mpr ⟨(k, v), Entries.mem_of_get? h, by simp⟩

theorem size_set_le_succ (d : OrderedDict κ ν) (k : κ) (v : ν) : (d.set k v).size ≤ d.size + 1 := by
  rw [size_set]
  split <;> omega

theorem size_set_of_get? {d : OrderedDict κ ν} {k : κ} {v : ν} (h : d.get? k = some v) (v' : ν) :
    (d.set k v').size = d.size := by
  rw [size_set, if_pos (mem_keys.mpr ⟨v, h⟩)]

@[simp] theorem size_moveToFront (d : OrderedDict κ ν) (k : κ) : (d.moveToFront k).size = d.size := by
  unfold moveToFront
  cases h : d.get? k with
  | none => rfl
  | some v =>
      have hperm := keys_perm_moveToEnd d k
      rw [moveToEnd, h] at hperm
      have hlength := hperm.length_eq
      simp only [size, keys, List.map_append, List.length_append, List.length_map, List.length_cons,
        List.length_nil] at hlength ⊢
      exact hlength

end OrderedDict

namespace Perpetua.Transition

open Perpetua.Membership

variable {φ : Type} [PyReal φ] {cfg : Config φ} {m : Manager φ}

/-- The caches, the buffers and the buckets are within their limits. -/
structure Bounded (cfg : Config φ) (m : Manager φ) : Prop where
  seen : m.seenObservations.size ≤ cfg.maxCacheSize
  watermarks : m.lastAppliedKey.size ≤ cfg.maxCacheSize
  buffers : m.reorderBuffer.size ≤ cfg.maxCacheSize
  waiting : ∀ peerId, (m.buffer peerId).size ≤ cfg.reorderBufferMax
  observations : ∀ key, (m.equivocationLog.bucket key).length ≤ maxObservationsPerKey
  peers : ∀ i, (m.kBucket.bucket i).length ≤ m.kBucket.k

/-! ## Parts of a call -/

theorem length_bucket_record {log : EquivocationLog φ}
    (h : ∀ key, (log.bucket key).length ≤ maxObservationsPerKey) (o : PeerObservation φ)
    (key : String × ℤ) : ((log.record o).bucket key).length ≤ maxObservationsPerKey := by
  rw [← recordObservation_fst log o.timestamp, bucket_recordObservation]
  split
  · have hbucket := h key
    unfold trimmed
    split
    · rw [List.length_append, List.length_tail, List.length_singleton]
      unfold maxObservationsPerKey at *
      omega
    · rw [List.length_append, List.length_singleton]
      omega
  · exact h key

omit [PyReal φ] in
theorem length_bucket_update (keyOf : String → ℕ) {table : KBucketTable φ}
    (h : ∀ i, (table.bucket i).length ≤ table.k) (peerId : String) (lastSeen : φ) (i : ℕ) :
    ((table.update keyOf peerId lastSeen).bucket i).length ≤ table.k := by
  rw [KBucketTable.bucket_update keyOf table (peerId, lastSeen) i]
  split
  · rw [length_rtake]
    exact Nat.min_le_left _ _
  · exact h i

theorem ApplyCase.bounded {o : PeerObservation φ} {oldStatus : String} {env : StageEnv φ}
    {outcome : Outcome φ (StateTransitionResult φ)} (h : Bounded cfg m)
    (hcase : ApplyCase cfg m o oldStatus env outcome) : Bounded cfg outcome.1 := by
  have hrecord := length_bucket_record h.observations o
  cases hcase with
  | committed _ _ _ =>
      exact ⟨OrderedDict.size_touch_le h.seen _ _, OrderedDict.size_touch_le h.watermarks _ _, h.buffers,
        h.waiting, hrecord, length_bucket_update cfg.keyOf h.peers o.peerId o.timestamp⟩
  | failed _ _ => exact ⟨h.seen, h.watermarks, h.buffers, h.waiting, hrecord, h.peers⟩
  | refused _ _ =>
      rw [reject_fst]
      exact ⟨h.seen, h.watermarks, h.buffers, h.waiting, hrecord, h.peers⟩

theorem Bounded.advance (h : Bounded cfg m) (peerId : String) (o : PeerObservation φ) :
    Bounded cfg (m.advance cfg peerId o) :=
  ⟨h.seen, OrderedDict.size_touch_le h.watermarks _ _, h.buffers, h.waiting, h.observations, h.peers⟩

theorem Bounded.markSeen (h : Bounded cfg m) (o : PeerObservation φ) : Bounded cfg (m.markSeen cfg o) :=
  ⟨OrderedDict.size_touch_le h.seen _ _, h.watermarks, h.buffers, h.waiting, h.observations, h.peers⟩

/-- Change a buffer that is there. -/
theorem Bounded.setBuffer (h : Bounded cfg m) {peerId : String} (hpeer : peerId ∈ m.reorderBuffer.keys)
    {buffer : Buffer φ} (hbuffer : buffer.size ≤ cfg.reorderBufferMax) :
    Bounded cfg (m.setBuffer peerId buffer) where
  seen := h.seen
  watermarks := h.watermarks
  buffers := by
    obtain ⟨old, hold⟩ := OrderedDict.mem_keys.mp hpeer
    rw [Manager.setBuffer, OrderedDict.size_set_of_get? hold]
    exact h.buffers
  waiting := fun q => by
    rw [buffer_setBuffer]
    split
    · exact hbuffer
    · exact h.waiting q
  observations := h.observations
  peers := h.peers

theorem NextUp.mem_keys {peerId : String} {last : Key} {entry : Waiting φ}
    (h : NextUp m peerId last entry) : peerId ∈ m.reorderBuffer.keys := by
  by_contra hnot
  have hentry := h.entry
  have hnone : m.reorderBuffer.get? peerId = none := Entries.get?_eq_none.mpr hnot
  rw [Manager.buffer, hnone, Option.getD_none, OrderedDict.get?_empty] at hentry
  cases hentry

theorem NextUp.mem_keys_pop {peerId : String} {last : Key} {entry : Waiting φ}
    (h : NextUp m peerId last entry) : peerId ∈ (m.pop peerId last.next).reorderBuffer.keys := by
  rw [Manager.pop, Manager.setBuffer, OrderedDict.keys_set, if_pos h.mem_keys]
  exact h.mem_keys

theorem NextUp.size_pop_lt {peerId : String} {last : Key} {entry : Waiting φ}
    (h : NextUp m peerId last entry) :
    ((m.pop peerId last.next).buffer peerId).size < (m.buffer peerId).size := by
  rw [Manager.pop, buffer_setBuffer, if_pos rfl]
  exact OrderedDict.size_erase_lt h.entry

theorem Bounded.pop (h : Bounded cfg m) {peerId : String} {last : Key} {entry : Waiting φ}
    (hnext : NextUp m peerId last entry) : Bounded cfg (m.pop peerId last.next) :=
  h.setBuffer hnext.mem_keys ((OrderedDict.size_erase_le _ _).trans (h.waiting peerId))

/-- An entry is put back where there is room for it. -/
theorem Bounded.restore {m' : Manager φ} (h : Bounded cfg m) (h' : Bounded cfg m') {peerId : String}
    {last : Key} {entry : Waiting φ} (hnext : NextUp m peerId last entry)
    (hm' : m'.reorderBuffer = (m.pop peerId last.next).reorderBuffer) :
    Bounded cfg (m'.restore peerId last.next entry) := by
  refine h'.setBuffer (by rw [hm']; exact hnext.mem_keys_pop) ?_
  have hlt := hnext.size_pop_lt
  have hroom := h.waiting peerId
  have hset := OrderedDict.size_set_le_succ (m'.buffer peerId) last.next entry
  rw [OrderedDict.size_moveToFront]
  rw [buffer_congr hm'] at hset ⊢
  omega

theorem Bounded.round (h : Bounded cfg m) (peerId : String) (env : StageEnv φ) :
    Bounded cfg (flushRound cfg peerId env m).manager := by
  have hcase := flushRound_cases cfg peerId env m
  generalize flushRound cfg peerId env m = round at hcase ⊢
  cases hcase with
  | idle _ => exact h
  | @expired last o oldStatus m' _ hnext _ hreject =>
      have hpop := h.pop hnext
      have hm' : m' = (reject cfg (m.pop peerId last.next) o .stale .expiredBeforeGapFilled oldStatus
        env {}).1 := by rw [hreject]
      rw [Round.manager, hm', reject_fst]
      exact ⟨hpop.seen, hpop.watermarks, hpop.buffers, hpop.waiting, hpop.observations, hpop.peers⟩
  | seen hnext _ _ => exact (h.pop hnext).advance peerId _
  | @raised last o oldStatus m' e hnext _ _ happly =>
      have hcase := applyObservation_cases cfg (m.pop peerId last.next) o oldStatus env
      rw [happly] at hcase
      exact h.restore (hcase.bounded (h.pop hnext)) hnext hcase.reorderBuffer
  | @skipped last o oldStatus m' r hnext _ _ happly _ =>
      have hcase := applyObservation_cases cfg (m.pop peerId last.next) o oldStatus env
      rw [happly] at hcase
      exact ((hcase.bounded (h.pop hnext)).markSeen o).advance peerId o
  | @applied last o oldStatus m' r hnext _ _ happly _ =>
      have hcase := applyObservation_cases cfg (m.pop peerId last.next) o oldStatus env
      rw [happly] at hcase
      exact hcase.bounded (h.pop hnext)

theorem Bounded.dropBuffer (h : Bounded cfg m) (peerId : String) : Bounded cfg (m.dropBuffer peerId) where
  seen := h.seen
  watermarks := h.watermarks
  buffers := (OrderedDict.size_erase_le _ _).trans h.buffers
  waiting := fun q => by
    rw [Manager.buffer, Manager.dropBuffer, OrderedDict.get?_erase]
    split
    · exact Nat.zero_le _
    · exact h.waiting q
  observations := h.observations
  peers := h.peers

theorem Bounded.flush (h : Bounded cfg m) (peerId : String) (envs : ℕ → StageEnv φ) :
    Bounded cfg (flushReorderBuffer cfg peerId envs m).1 :=
  flush_invariant (fun _ env hm => hm.round peerId env) (fun _ hm _ => hm.dropBuffer peerId) envs h

theorem Bounded.hold (h : Bounded cfg m) {c : Call φ} (hholds : Holds cfg m c) :
    Bounded cfg (m.hold cfg c) where
  seen := h.seen
  watermarks := h.watermarks
  buffers := OrderedDict.size_touch_le h.buffers _ _
  waiting := fun q => by
    unfold Manager.buffer
    cases hget : (m.hold cfg c).reorderBuffer.get? q with
    | none => exact Nat.zero_le _
    | some b =>
        rcases OrderedDict.get?_of_touch hget with ⟨rfl, rfl⟩ | hget
        · have hroom := hholds.room
          have hset := OrderedDict.size_set_le_succ (m.buffer c.obs.peerId) (orderKey c.obs)
            (c.obs, c.oldStatus)
          rw [Option.getD_some, OrderedDict.size_moveToEnd]
          omega
        · have hwaiting := h.waiting q
          rwa [Manager.buffer, hget] at hwaiting
  observations := h.observations
  peers := h.peers

/-! ## The work of a call -/

/-- The entries of the audit log. -/
def Manager.audited (m : Manager φ) : ℕ := m.auditLog.entries.length

theorem length_append_le (log : Audit.AuditLog) (verifier : Option Audit.SignatureVerifier)
    (args : Audit.AppendArgs) (env : Audit.AppendEnv) :
    (log.append verifier args env).1.entries.length ≤ log.entries.length + 1 := by
  unfold Audit.AuditLog.append
  split
  · exact Nat.le_succ _
  · split
    · exact Nat.le_succ _
    · dsimp only
      split
      · exact Nat.le_succ _
      · exact le_of_eq List.length_append

variable (cfg m) in
theorem audited_reject_le (o : PeerObservation φ) (decision : DecisionType) (reason : Reason φ)
    (oldStatus : String) (env : StageEnv φ) (findings : Findings φ) :
    (reject cfg m o decision reason oldStatus env findings).1.audited ≤ m.audited + 1 := by
  rw [reject_fst]
  exact length_append_le ..

theorem ApplyCase.audited_le {o : PeerObservation φ} {oldStatus : String} {env : StageEnv φ}
    {outcome : Outcome φ (StateTransitionResult φ)} (h : ApplyCase cfg m o oldStatus env outcome) :
    outcome.1.audited ≤ m.audited + 1 := by
  have happend := length_append_le m.auditLog cfg.verifier (approval cfg m o oldStatus) env.append
  cases h with
  | committed _ happrove _ =>
      rw [approve] at happrove
      rwa [happrove] at happend
  | failed _ happrove =>
      rw [approve] at happrove
      rwa [happrove] at happend
  | refused _ _ => exact audited_reject_le cfg (m.refuse o) ..

variable (cfg m) in
theorem audited_round_le (peerId : String) (env : StageEnv φ) :
    (flushRound cfg peerId env m).manager.audited ≤ m.audited + 1 := by
  have hcase := flushRound_cases cfg peerId env m
  generalize flushRound cfg peerId env m = round at hcase ⊢
  cases hcase with
  | idle _ => exact Nat.le_succ _
  | @expired last o oldStatus m' _ _ _ hreject =>
      have hle := audited_reject_le cfg (m.pop peerId last.next) o .stale
        .expiredBeforeGapFilled oldStatus env {}
      rw [hreject] at hle
      exact hle
  | seen _ _ _ => exact Nat.le_succ _
  | @raised last o oldStatus m' e _ _ _ happly
  | @skipped last o oldStatus m' r _ _ _ happly _
  | @applied last o oldStatus m' r _ _ _ happly _ =>
      have hcase := applyObservation_cases cfg (m.pop peerId last.next) o oldStatus env
      rw [happly] at hcase
      exact hcase.audited_le

variable (cfg) in
theorem audited_flushLoop_le (peerId : String) (rounds : ℕ) (envs : ℕ → StageEnv φ) (m : Manager φ) :
    (flushLoop cfg peerId rounds envs m).1.audited ≤ m.audited + rounds := by
  induction rounds generalizing envs m with
  | zero => exact le_rfl
  | succ rounds ih =>
      have hround := audited_round_le cfg m peerId (envs 0)
      rw [flushLoop]
      split
      · rename_i outcome hstop
        rw [hstop] at hround
        exact hround.trans (by omega)
      · rename_i m' ds hnext
        rw [hnext] at hround
        have hrest := ih (fun i => envs (i + 1)) m'
        have hround' : m'.audited ≤ m.audited + 1 := hround
        dsimp only
        omega

variable (cfg) in
theorem audited_flush_le (peerId : String) (envs : ℕ → StageEnv φ) (m : Manager φ) :
    (flushReorderBuffer cfg peerId envs m).1.audited ≤ m.audited + (m.buffer peerId).size := by
  have hloop := audited_flushLoop_le cfg peerId (m.buffer peerId).size envs m
  unfold flushReorderBuffer
  dsimp only
  split
  · exact Nat.le_add_right _ _
  · split
    · rename_i heq
      rwa [heq] at hloop
    · rename_i heq
      rw [heq] at hloop
      split
      · exact hloop
      · exact hloop

/-! ## Runs -/

section Runs

variable [PyReal.Text φ]

theorem Bounded.step (h : Bounded cfg m) (c : Call φ) : Bounded cfg (step cfg m c) := by
  have hcase := evaluate_cases cfg m c
  unfold Transition.step
  generalize evaluate cfg m c = outcome at hcase ⊢
  cases hcase with
  | refused _ hreject _ _ =>
      rw [← hreject, alone, reject_fst]
      exact ⟨h.seen, h.watermarks, h.buffers, h.waiting, h.observations, h.peers⟩
  | retried _ _ => exact h
  | held _ hholds _ => exact h.hold hholds
  | raised _ happly =>
      have hcase := applyObservation_cases cfg m c.obs c.oldStatus c.env
      rw [happly] at hcase
      exact hcase.bounded h
  | applied _ happly =>
      have hcase := applyObservation_cases cfg m c.obs c.oldStatus c.env
      rw [happly] at hcase
      exact (hcase.bounded h).flush c.obs.peerId c.flushEnv

/-- A call adds an entry for its observation and one for each that waits, at most. -/
theorem Bounded.audited_step_le (h : Bounded cfg m) (c : Call φ) :
    (Transition.step cfg m c).audited ≤ m.audited + 1 + cfg.reorderBufferMax := by
  have hcase := evaluate_cases cfg m c
  unfold Transition.step
  generalize evaluate cfg m c = outcome at hcase ⊢
  cases hcase with
  | @refused decision reason _ _ hreject _ _ =>
      rw [← hreject]
      exact (audited_reject_le cfg m c.obs decision reason c.oldStatus c.env {}).trans
        (Nat.le_add_right _ _)
  | retried _ _ => exact (Nat.le_succ _).trans (Nat.le_add_right _ _)
  | held _ _ _ => exact (Nat.le_succ _).trans (Nat.le_add_right _ _)
  | raised _ happly =>
      have hcase := applyObservation_cases cfg m c.obs c.oldStatus c.env
      rw [happly] at hcase
      exact hcase.audited_le.trans (Nat.le_add_right _ _)
  | @applied m' r _ happly =>
      have hcase := applyObservation_cases cfg m c.obs c.oldStatus c.env
      rw [happly] at hcase
      have hflush := audited_flush_le cfg c.obs.peerId c.flushEnv m'
      have happly : m'.audited ≤ m.audited + 1 := hcase.audited_le
      have hwaiting := (hcase.bounded h).waiting c.obs.peerId
      dsimp only at hwaiting ⊢
      omega

/-- A manager as the constructor makes it. -/
def Manager.start (localId : String) (k : ℕ) (auditLog : Audit.AuditLog)
    (reputation : ReputationLedger φ) : Manager φ :=
  { kBucket := { localId, k }, auditLog, reputation }

omit [PyReal.Text φ] in
theorem bounded_start (localId : String) (k : ℕ) (auditLog : Audit.AuditLog)
    (reputation : ReputationLedger φ) : Bounded cfg (.start localId k auditLog reputation) :=
  ⟨Nat.zero_le _, Nat.zero_le _, Nat.zero_le _, fun _ => Nat.zero_le _, fun _ => Nat.zero_le _,
    fun _ => Nat.zero_le _⟩

/-- The observations that wait for all peers. -/
def Manager.waitingCount (m : Manager φ) : ℕ := (m.reorderBuffer.entries.map (·.2.size)).sum

omit [PyReal.Text φ] in
theorem Bounded.waitingCount_le (h : Bounded cfg m) :
    m.waitingCount ≤ cfg.maxCacheSize * cfg.reorderBufferMax := by
  have hentry : ∀ n ∈ m.reorderBuffer.entries.map (·.2.size), n ≤ cfg.reorderBufferMax := by
    intro n hn
    obtain ⟨e, he, rfl⟩ := List.mem_map.mp hn
    have hwaiting := h.waiting e.1
    rwa [Manager.buffer, OrderedDict.get?, Entries.get?_of_mem m.reorderBuffer.nodup he] at hwaiting
  have hsum := List.sum_le_card_nsmul _ _ hentry
  rw [List.length_map, smul_eq_mul] at hsum
  exact hsum.trans (Nat.mul_le_mul_right _ h.buffers)

/-- Over every run, those calls included whose audit appends fail: the replay cache, the watermarks and
the peers with a buffer stay within the cache limit, every buffer within the reorder limit, every
equivocation bucket within fifty observations and every distance bucket within `k` peers; and the next
call adds at most one audit entry more than the reorder limit. -/
theorem bounded_run (localId : String) (k : ℕ) (auditLog : Audit.AuditLog)
    (reputation : ReputationLedger φ) (calls : List (Call φ)) :
    Bounded cfg (runCalls cfg (.start localId k auditLog reputation) calls) ∧
      (runCalls cfg (.start localId k auditLog reputation) calls).waitingCount ≤
        cfg.maxCacheSize * cfg.reorderBufferMax ∧
      ∀ c, (step cfg (runCalls cfg (.start localId k auditLog reputation) calls) c).audited ≤
        (runCalls cfg (.start localId k auditLog reputation) calls).audited + 1 +
          cfg.reorderBufferMax := by
  have hbounded : Bounded cfg (runCalls cfg (.start localId k auditLog reputation) calls) :=
    Machine.run_invariant (fun _ c h => h.step c) (bounded_start localId k auditLog reputation) calls
  exact ⟨hbounded, hbounded.waitingCount_le, hbounded.audited_step_le⟩

end Runs

end Perpetua.Transition

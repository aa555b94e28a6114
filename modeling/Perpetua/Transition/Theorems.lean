import Perpetua.Transition.Lemmas.Order
import Perpetua.Transition.Lemmas.Delivery
import Perpetua.Transition.Lemmas.Waiting

/-!
# Theorems about the state transition manager
-/

namespace Perpetua.Transition

open Perpetua.Membership Audit

/-! ## Sample calls -/

/-- The texts of whole numbers. -/
local instance wholeText : PyReal.Text ℚ where
  repr := fun q => .int q.floor
  fixed2 := fun q => intString q.floor ++ ".00"

def sampleWitness (observerId provenance : String) : Fields ℚ :=
  { peerId := observerId, epoch := 1, timestamp := 0, observerId, observationType := .reachable
    directStatus := .reachable, endpoint := "", endpointEpoch := 1, observerProvenance := provenance }

theorem sampleWitness_valid (observerId provenance : String) :
    (sampleWitness observerId provenance).Valid := by
  simp [Fields.Valid, sampleWitness, maxChainDepth]

/-- An observation of a peer by two witnesses that never expires. -/
def sampleObservation (epoch sequence : ℤ) : PeerObservation ℚ where
  tree := .node
    { peerId := "peer", epoch, sequence, timestamp := 0, observerId := "observer"
      observationType := .reachable, directStatus := .reachable, endpoint := "", endpointEpoch := 1
      ttlSeconds := none }
    [.node (sampleWitness "first" "a") [], .node (sampleWitness "second" "b") []]
  valid := by
    refine ⟨by simp [Fields.Valid, maxChainDepth], le_rfl,
      ⟨sampleWitness_valid _ _, by decide, trivial⟩, ⟨sampleWitness_valid _ _, by decide, trivial⟩, trivial⟩

def sampleConfig : Config ℚ :=
  { localId := "local", weightedQuorumThreshold := 2, provenanceBucket := id }

def sampleManager : Manager ℚ :=
  { kBucket := { localId := "local" }, auditLog := { sink := .memory }
    reputation := { neutralDefault := 1 } }

/-- The sample manager with its audit log elsewhere. -/
def sampleOn (sink : Sink) : Manager ℚ := { sampleManager with auditLog := { sink } }

def sampleEnv : StageEnv ℚ := { now := 0, detectedAt := 0, append := { now := .int 0 } }

def sampleCall (epoch sequence : ℤ) : Call ℚ :=
  { obs := sampleObservation epoch sequence, env := sampleEnv, flushEnv := fun _ => sampleEnv }

/-- A sample call whose flush meets something else. -/
def sampleCallIn (flushEnv : ℕ → StageEnv ℚ) (epoch sequence : ℤ) : Call ℚ :=
  { obs := sampleObservation epoch sequence, env := sampleEnv, flushEnv }

theorem weighted_sample (epoch sequence : ℤ) :
    (weighted sampleConfig { neutralDefault := 1 } (sampleObservation epoch sequence)).passes := by
  simp [weighted, weightVotes, buildQuorumVote, sampleConfig, sampleObservation,
    PeerObservation.witnessSet, Tree.witnessSet, Tree.fields, sampleWitness, Entries.set,
    Entries.get?_cons, ReputationLedger.reputationWeight, PyReal.sum, PyReal.max]
  rw [one_add_one_eq_two]

theorem passes_sample {m : Manager ℚ} {epoch sequence : ℤ}
    (hreputation : m.reputation = { neutralDefault := 1 })
    (hconsistent : ¬ Contradicted m.equivocationLog (sampleObservation epoch sequence)) :
    Passes sampleConfig m (sampleObservation epoch sequence) where
  consistent := hconsistent
  quorum := rfl
  weight := by rw [hreputation]; exact weighted_sample epoch sequence

theorem auditWorks_sample {m : Manager ℚ} (h : verifyFrom none 0 "" m.auditLog.entries) :
    AuditWorks sampleConfig m where
  chain := h
  signs := nofun

variable {φ : Type} [PyReal φ] {cfg : Config φ} {m : Manager φ}

/-! ## Acceptance in order -/

/-- The caches of a manager that was just constructed. -/
structure Manager.Fresh (m : Manager φ) : Prop where
  lastAppliedKey : m.lastAppliedKey = .empty
  seenObservations : m.seenObservations = .empty
  reorderBuffer : m.reorderBuffer = .empty

theorem Manager.Fresh.tracks (h : m.Fresh) (K : List String) : Tracks K m where
  known := fun peerId hpeer => by rw [h.lastAppliedKey] at hpeer; cases hpeer
  filed := fun peerId key entry hget => by
    rw [Manager.buffer, h.reorderBuffer] at hget
    cases hget

theorem filter_peer_marks (peerId : String) (ds : List (Decided φ)) :
    ((ds.filter (·.2.accepted)).filter (·.1.peerId = peerId)).map (fun d => (orderKey d.1).mark) =
      acceptedMarks peerId ds := by
  induction ds with
  | nil => rfl
  | cons d ds ih =>
      rw [acceptedMarks, List.filterMap_cons, ← acceptedMarks, ← ih]
      by_cases ha : d.2.accepted <;> by_cases hp : d.1.peerId = peerId <;> simp [ha, hp]

/-- One above the other for each peer, hence none twice. -/
theorem nodup_of_ascending {ds : List (Decided φ)}
    (h : ∀ peerId, ((ds.filter (·.1.peerId = peerId)).map fun d => (orderKey d.1).mark).Pairwise
      (· < ·)) :
    (ds.map fun d => (d.1.peerId, d.1.epoch, d.1.sequence, d.1.observerId)).Nodup := by
  induction ds with
  | nil => exact List.nodup_nil
  | cons d ds ih =>
      rw [List.map_cons, List.nodup_cons]
      constructor
      · intro hmem
        obtain ⟨d', hd', he⟩ := List.mem_map.mp hmem
        simp only [Prod.mk.injEq] at he
        have hd := h d.1.peerId
        rw [List.filter_cons_of_pos (by simp), List.map_cons, List.pairwise_cons] at hd
        have hlt := hd.1 (orderKey d'.1).mark (List.mem_map.mpr
          ⟨d', List.mem_filter.mpr ⟨hd', by simp [he.1]⟩, rfl⟩)
        have hkey : orderKey d.1 = orderKey d'.1 := Prod.ext he.2.1.symm he.2.2.1.symm
        rw [hkey] at hlt
        exact lt_irrefl _ hlt
      · refine ih fun peerId => ?_
        have hsub := ((List.sublist_cons_self d ds).filter (·.1.peerId = peerId)).map
          fun d => (orderKey d.1).mark
        exact (h peerId).sublist hsub

section Runs

variable [PyReal.Text φ]

/-- The manager after the calls, those that raise included. -/
def runCalls (cfg : Config φ) (m : Manager φ) (calls : List (Call φ)) : Manager φ :=
  Machine.run (step cfg) m calls

/-- The decisions that accept, of the calls in turn: the outer one, then the flushed ones. -/
def acceptances (cfg : Config φ) (m : Manager φ) (calls : List (Call φ)) : List (Decided φ) :=
  (Machine.outputs (step cfg) (fun m c => decisions c (evaluate cfg m c).2) m calls).filter
    (·.2.accepted)

/-- No more peers than the caches have room for. -/
def PeersFit (cfg : Config φ) (calls : List (Call φ)) : Prop :=
  (calls.map (·.obs.peerId)).dedup.length ≤ cfg.maxCacheSize

instance (cfg : Config φ) (calls : List (Call φ)) : Decidable (PeersFit cfg calls) :=
  inferInstanceAs (Decidable (_ ≤ _))

/-- Along a run every call is an ascent. -/
theorem ascends_along (hfresh : m.Fresh) {calls : List (Call φ)} (hfit : PeersFit cfg calls) :
    Machine.Along (step cfg)
      (fun m c => Ascends (calls.map (·.obs.peerId)).dedup m (decisions c (evaluate cfg m c).2)
        (step cfg m c)) m calls := by
  have hpeers : Machine.Along (step cfg)
      (fun _ c => c.obs.peerId ∈ (calls.map (·.obs.peerId)).dedup) m calls :=
    Machine.along_of_forall fun c hc _ => List.mem_dedup.mpr (List.mem_map_of_mem hc)
  have htracks := hpeers.strengthen (I := Tracks (calls.map (·.obs.peerId)).dedup)
    (fun m c h hc => (h.evaluate hfit hc).tracks) (hfresh.tracks _)
  exact htracks.mono fun m c h => h.1.evaluate hfit h.2

/-- What is accepted of a peer goes up in epoch and sequence, its watermark never goes down, and
nothing is accepted twice. -/
theorem acceptances_ascending (hfresh : m.Fresh) (calls : List (Call φ))
    (hfit : PeersFit cfg calls) :
    (∀ peerId, (((acceptances cfg m calls).filter (·.1.peerId = peerId)).map
      fun d => (orderKey d.1).mark).Pairwise (· < ·)) ∧
    (∀ peerId pre c post, calls = pre ++ c :: post →
      (runCalls cfg m pre).watermark peerId ≤ (runCalls cfg m (pre ++ [c])).watermark peerId) ∧
    ((acceptances cfg m calls).map
      fun d => (d.1.peerId, d.1.epoch, d.1.sequence, d.1.observerId)).Nodup := by
  have halong := ascends_along hfresh hfit
  have hsorted : ∀ peerId, (((acceptances cfg m calls).filter (·.1.peerId = peerId)).map
      fun d => (orderKey d.1).mark).Pairwise (· < ·) := by
    intro peerId
    have hrises := HighWater.rises_run (fun m => m.watermark peerId)
      (halong.mono fun m c h => h.rises peerId)
    rw [acceptances, filter_peer_marks, acceptedMarks, Machine.outputs_filterMap]
    exact hrises.sorted
  refine ⟨hsorted, ?_, nodup_of_ascending hsorted⟩
  rintro peerId pre c post hcalls
  have hstep := (Machine.along_iff.mp halong pre c post hcalls).rises peerId
  rw [runCalls, runCalls, Machine.run_append]
  exact hstep.le

end Runs

theorem acceptances_ascending_gap :
    (∀ peerId, (((acceptances sampleConfig sampleManager
      [sampleCall 1 1, sampleCall 1 3, sampleCall 1 2]).filter (·.1.peerId = peerId)).map
      fun d => (orderKey d.1).mark).Pairwise (· < ·)) ∧
    (∀ peerId pre c post, [sampleCall 1 1, sampleCall 1 3, sampleCall 1 2] = pre ++ c :: post →
      (runCalls sampleConfig sampleManager pre).watermark peerId ≤
        (runCalls sampleConfig sampleManager (pre ++ [c])).watermark peerId) ∧
    ((acceptances sampleConfig sampleManager
      [sampleCall 1 1, sampleCall 1 3, sampleCall 1 2]).map
      fun d => (d.1.peerId, d.1.epoch, d.1.sequence, d.1.observerId)).Nodup :=
  acceptances_ascending ⟨rfl, rfl, rfl⟩ _ (by decide)

/-! ## Waiting observations -/

theorem Manager.Fresh.sound (h : m.Fresh) : Sound cfg m where
  filed := (h.tracks []).filed
  bounded := by rw [h.lastAppliedKey]; exact Nat.zero_le _

theorem Manager.Fresh.allLive (h : m.Fresh) : AllLive m := fun peerId key entry hget => by
  rw [Manager.buffer, h.reorderBuffer] at hget
  cases hget

section Runs

variable [PyReal.Text φ]

/-- After the call every waiting observation is live, and the call is refused for a full buffer only
if that many live observations wait. -/
structure OnlyLive (cfg : Config φ) (m : Manager φ) (c : Call φ) : Prop where
  live : AllLive (step cfg m c)
  full : ∀ e, (evaluate cfg m c).2 = .ok e → ∀ reason ∈ e.result.rejectionReason,
    reason.IsBufferFull → ∃ last, m.lastAppliedKey.get? c.obs.peerId = some last ∧
      cfg.reorderBufferMax ≤ ((m.buffer c.obs.peerId).keys.filter fun key => Live last key).length

theorem AllLive.onlyLive_iff_not_strands (h : AllLive m) (hsound : Sound cfg m) (c : Call φ) :
    OnlyLive cfg m c ↔ ¬ Strands cfg m c := by
  rw [← allLive_step_iff h hsound]
  refine ⟨OnlyLive.live, fun hstep => ⟨hstep, fun e he reason hreason hfull => ?_⟩⟩
  obtain ⟨hahead, hsize⟩ := buffer_of_bufferFull he hreason hfull
  cases hlast : m.lastAppliedKey.get? c.obs.peerId with
  | none => rw [hlast] at hahead; cases hahead
  | some last =>
      refine ⟨last, rfl, ?_⟩
      have hall : (m.buffer c.obs.peerId).keys.filter (fun key => Live last key) =
          (m.buffer c.obs.peerId).keys := by
        refine List.filter_eq_self.mpr fun key hkey => decide_eq_true ?_
        obtain ⟨entry, hget⟩ := OrderedDict.mem_keys.mp hkey
        obtain ⟨last', hlast', hlive⟩ := h c.obs.peerId key entry hget
        rwa [Option.some.inj (hlast.symm.trans hlast')]
      rw [hall, ← OrderedDict.size_eq_keys]
      exact hsize

theorem AllLive.along_iff {calls : List (Call φ)} (h : AllLive m) (hsound : Sound cfg m) :
    Machine.Along (step cfg) (OnlyLive cfg) m calls ↔
      Machine.Along (step cfg) (fun m c => ¬ Strands cfg m c) m calls := by
  induction calls generalizing m with
  | nil => exact Iff.rfl
  | cons c calls ih =>
      have hone := h.onlyLive_iff_not_strands hsound c
      constructor
      · rintro ⟨honly, hrest⟩
        exact ⟨hone.mp honly, (ih honly.live (hsound.step c)).mp hrest⟩
      · rintro ⟨hnot, hrest⟩
        have honly := hone.mpr hnot
        exact ⟨honly, (ih honly.live (hsound.step c)).mpr hrest⟩

/-- Only live observations wait, all along a run, if and only if no call of it strands one. -/
theorem onlyLive_iff (hfresh : m.Fresh) (calls : List (Call φ)) :
    Machine.Along (step cfg) (OnlyLive cfg) m calls ↔
      Machine.Along (step cfg) (fun m c => ¬ Strands cfg m c) m calls :=
  hfresh.allLive.along_iff hfresh.sound

end Runs

/-- The sample manager with one observation committed. -/
def sampleCommitted (log : AuditLog) : Manager ℚ :=
  sampleManager.commit sampleConfig (sampleObservation 1 1) log

theorem unseen_sampleCommitted (log : AuditLog) {epoch sequence : ℤ} (h : (epoch, sequence) ≠ (1, 1)) :
    dedupKey (sampleObservation epoch sequence) ∉ (sampleCommitted log).seenObservations.keys := by
  intro hmem
  rcases OrderedDict.mem_keys_touch hmem with hkey | hnone
  · have hpeer : (sampleObservation epoch sequence).peerId = (sampleObservation 1 1).peerId := rfl
    exact h (dedupKey_inj hpeer hkey).1
  · cases hnone

theorem fresh_sample (epoch sequence : ℤ) (now : ℚ) :
    ¬ (sampleObservation epoch sequence).isStale now :=
  Bool.false_ne_true

/-- The first observation of an epoch is applied. -/
theorem evaluate_sample_first (sink : Sink) : ∃ log r, verifyFrom none 0 "" log.entries ∧
    ((∃ content, sink = .path content) → log.OnDisk) ∧
    evaluate sampleConfig (sampleOn sink) (sampleCall 1 1) =
      (sampleCommitted log, .ok { result := r }) := by
  generalize hm : sampleOn sink = m
  have happlies : Applies m (sampleCall 1 1) := by
    rw [← hm]; exact ⟨nofun, rfl, fresh_sample _ _ _⟩
  have hpasses : Passes sampleConfig m (sampleObservation 1 1) := by
    rw [← hm]
    refine passes_sample rfl ?_
    change ¬ Contradicted sampleManager.equivocationLog _
    decide
  have hworks : AuditWorks sampleConfig m := by rw [← hm]; exact auditWorks_sample rfl
  obtain ⟨log, entry, happrove, hchain⟩ :=
    hworks.approve (sampleObservation 1 1) "UNKNOWN" sampleEnv rfl
  obtain ⟨r, -, -, hfirst⟩ := evaluate_of_commits happlies hpasses happrove
  refine ⟨log, r, hchain, fun hsink => ?_, ?_⟩
  · have hdisk : m.auditLog.OnDisk := by rw [← hm]; exact hsink
    exact onDisk_of_approve hdisk happrove
  · rw [hfirst, ← hm, flush_of_empty rfl]
    rfl

/-- A later observation of the epoch is held back. -/
theorem evaluate_sample_held (log : AuditLog) : ∃ r,
    evaluate sampleConfig (sampleCommitted log) (sampleCall 1 3) =
      ((sampleCommitted log).hold sampleConfig (sampleCall 1 3), .ok { result := r }) := by
  have hholds : Holds sampleConfig (sampleCommitted log) (sampleCall 1 3) :=
    ⟨rfl, rfl, (by decide : 0 < 10)⟩
  obtain ⟨r, -, hheld⟩ := evaluate_of_holds hholds
    (unseen_sampleCommitted log (by decide)) (fresh_sample _ _ _)
  exact ⟨r, hheld⟩

/-- The first two calls of the sample runs. -/
theorem run_sample_held (sink : Sink) : ∃ log, verifyFrom none 0 "" log.entries ∧
    ((∃ content, sink = .path content) → log.OnDisk) ∧
    runCalls sampleConfig (sampleOn sink) [sampleCall 1 1, sampleCall 1 3] =
      (sampleCommitted log).hold sampleConfig (sampleCall 1 3) := by
  obtain ⟨log, r, hchain, hdisk, hfirst⟩ := evaluate_sample_first sink
  obtain ⟨r', hheld⟩ := evaluate_sample_held log
  refine ⟨log, hchain, hdisk, ?_⟩
  rw [runCalls, Machine.run_cons, Machine.run_cons, Machine.run_nil, step, step, hfirst, hheld]

/-- What stands in the way of a commit after these calls: nothing, if the observation is in order. -/
theorem commits_sample {log : AuditLog} (hchain : verifyFrom none 0 "" log.entries)
    (epoch sequence : ℤ) (hne : (epoch, sequence) ≠ (1, 1))
    (hplace : place (some (1, 1)) (epoch, sequence) = .inOrder)
    (hconsistent : ¬ Contradicted (sampleManager.equivocationLog.record (sampleObservation 1 1))
      (sampleObservation epoch sequence)) (flushEnv : ℕ → StageEnv ℚ) :
    Commits sampleConfig ((sampleCommitted log).hold sampleConfig (sampleCall 1 3))
      (sampleCallIn flushEnv epoch sequence) := by
  have hworks : AuditWorks sampleConfig ((sampleCommitted log).hold sampleConfig (sampleCall 1 3)) :=
    auditWorks_sample hchain
  obtain ⟨log', entry, happrove, -⟩ :=
    hworks.approve (sampleObservation epoch sequence) "UNKNOWN" sampleEnv rfl
  exact ⟨⟨unseen_sampleCommitted log hne, hplace, fresh_sample _ _ _⟩,
    passes_sample rfl hconsistent, log', entry, happrove⟩

theorem onlyLive_held : Machine.Along (step sampleConfig) (OnlyLive sampleConfig) sampleManager
    [sampleCall 1 1, sampleCall 1 3] := by
  refine (onlyLive_iff ⟨rfl, rfl, rfl⟩ _).mpr ⟨?_, ?_, trivial⟩
  · rintro ⟨-, ⟨last, hlast, -⟩ | ⟨entry, hget⟩ | ⟨q, hevicted, -⟩⟩
    · cases hlast
    · cases hget
    · cases hevicted
  · obtain ⟨log, r, -, -, hfirst⟩ := evaluate_sample_first .memory
    change ¬ Strands sampleConfig (evaluate sampleConfig (sampleOn .memory) (sampleCall 1 1)).1
      (sampleCall 1 3)
    rw [hfirst]
    intro hstrands
    have hplace := hstrands.1.applies.inOrder
    cases hplace

/-- An observation of a new epoch strands the one that waits in the old epoch. -/
theorem not_onlyLive_newEpoch : ¬ Machine.Along (step sampleConfig) (OnlyLive sampleConfig)
    sampleManager [sampleCall 1 1, sampleCall 1 3, sampleCall 2 1] := by
  have hfresh : sampleManager.Fresh := ⟨rfl, rfl, rfl⟩
  rw [hfresh.allLive.along_iff hfresh.sound]
  intro halong
  obtain ⟨log, hchain, -, hrun⟩ := run_sample_held .memory
  refine Machine.along_iff.mp halong [sampleCall 1 1, sampleCall 1 3] (sampleCall 2 1) [] rfl ?_
  change Strands sampleConfig (runCalls sampleConfig (sampleOn .memory)
    [sampleCall 1 1, sampleCall 1 3]) (sampleCall 2 1)
  rw [hrun]
  have hcommits := commits_sample hchain 2 1 (by decide) rfl (by decide) fun _ => sampleEnv
  have hopens : OpensEpoch ((sampleCommitted log).hold sampleConfig (sampleCall 1 3))
      (sampleCall 2 1) :=
    ⟨(1, 1), rfl, (by decide : (1 : ℤ) < 2), (by decide : 1 ≠ 0)⟩
  exact ⟨hcommits, Or.inl hopens⟩

end Perpetua.Transition

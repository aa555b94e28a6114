import Perpetua.Transition.Manager

/-!
# What the parts of a call do

The rejections leave everything but the audit log alone. Applying an observation records it, and then
either commits it or rejects it. A round of the flush is inverted once.
-/

namespace Perpetua.Transition

open Perpetua.Membership Audit

variable {φ : Type} [PyReal φ] {cfg : Config φ}

/-! ## Rejecting -/

section Reject

variable {m : Manager φ} {o : PeerObservation φ} {decision : DecisionType} {reason : Reason φ}
  {oldStatus : String} {env : StageEnv φ} {findings : Findings φ}

/-- What `reject` appends. -/
def rejection (cfg : Config φ) (o : PeerObservation φ) (decision : DecisionType)
    (oldStatus : String) : AppendArgs :=
  { peerId := o.peerId, oldStatus, newStatus := decision.value, signer := cfg.signer }

theorem reject_fst :
    (reject cfg m o decision reason oldStatus env findings).1 =
      { m with
        auditLog :=
          (m.auditLog.append cfg.verifier (rejection cfg o decision oldStatus) env.append).1 } :=
  rfl

/-- What a rejected observation gets. -/
structure Rejected (o : PeerObservation φ) (decision : DecisionType) (reason : Reason φ)
    (entry : AuditEntry) (r : StateTransitionResult φ) : Prop where
  accepted : r.accepted = false
  decisionType : r.decisionType = decision
  peerId : r.peerId = o.peerId
  rejectionReason : r.rejectionReason = some reason
  auditEntry : r.auditEntry = some entry

theorem reject_snd :
    (reject cfg m o decision reason oldStatus env findings).2 =
      (m.auditLog.append cfg.verifier (rejection cfg o decision oldStatus) env.append).2.map
        fun auditEntry =>
          { accepted := false
            decisionType := decision
            peerId := o.peerId
            epoch := o.epoch
            observerId := o.observerId
            rejectionReason := some reason
            findings
            auditEntry := some auditEntry } :=
  rfl

theorem rejected_of_reject {r : StateTransitionResult φ}
    (h : (reject cfg m o decision reason oldStatus env findings).2 = .ok r) :
    ∃ entry, (m.auditLog.append cfg.verifier (rejection cfg o decision oldStatus) env.append).2 =
      .ok entry ∧ Rejected o decision reason entry r := by
  rw [reject_snd] at h
  cases happend : (m.auditLog.append cfg.verifier (rejection cfg o decision oldStatus)
    env.append).2 with
  | error e => rw [happend] at h; cases h
  | ok entry =>
      rw [happend] at h
      cases h
      exact ⟨entry, rfl, rfl, rfl, rfl, rfl, rfl⟩

theorem accepted_of_reject {r : StateTransitionResult φ}
    (h : (reject cfg m o decision reason oldStatus env findings).2 = .ok r) : r.accepted = false := by
  obtain ⟨entry, -, hr⟩ := rejected_of_reject h
  exact hr.accepted

theorem rejectionReason_of_reject {r : StateTransitionResult φ}
    (h : (reject cfg m o decision reason oldStatus env findings).2 = .ok r) :
    r.rejectionReason = some reason := by
  obtain ⟨entry, -, hr⟩ := rejected_of_reject h
  exact hr.rejectionReason

end Reject

/-- The decision is a refusal because the buffer is full. -/
def Reason.IsBufferFull : Reason φ → Prop
  | .bufferFull _ _ _ => True
  | _ => False

/-! ## Applying -/

/-- The log with an observation recorded. -/
def EquivocationLog.record (log : EquivocationLog φ) (o : PeerObservation φ) : EquivocationLog φ :=
  { observations := log.observations.set (o.peerId, o.epoch)
      (trimmed (log.bucket (o.peerId, o.epoch)) ++ [logged o]) }

/-- The log shows that the observer has said otherwise. -/
def Contradicted (log : EquivocationLog φ) (o : PeerObservation φ) : Prop :=
  ∃ prior ∈ trimmed (log.bucket (o.peerId, o.epoch)), contradicts o prior

instance (log : EquivocationLog φ) (o : PeerObservation φ) : Decidable (Contradicted log o) :=
  inferInstanceAs (Decidable (∃ prior ∈ _, _))

/-- The weighted vote of an observation that has a quorum. -/
def weighted (cfg : Config φ) (reputation : ReputationLedger φ) (o : PeerObservation φ) :
    WeightedQuorum φ :=
  weightVotes cfg reputation o (buildQuorumVote cfg o true)

/-- The observation passes every gate. -/
structure Passes (cfg : Config φ) (m : Manager φ) (o : PeerObservation φ) : Prop where
  consistent : ¬ Contradicted m.equivocationLog o
  quorum : checkQuorum cfg o
  weight : (weighted cfg m.reputation o).passes

/-- What is appended for an observation that passes. -/
def approval (cfg : Config φ) (m : Manager φ) (o : PeerObservation φ) (oldStatus : String) :
    AppendArgs :=
  { peerId := o.peerId
    oldStatus
    newStatus := o.observationType.value
    witnesses := (weighted cfg m.reputation o).weightedByObserver.keys
    signer := cfg.signer }

/-- The append for an observation that passes. -/
def approve (cfg : Config φ) (m : Manager φ) (o : PeerObservation φ) (oldStatus : String)
    (env : StageEnv φ) : AuditLog × Except AuditError AuditEntry :=
  m.auditLog.append cfg.verifier (approval cfg m o oldStatus) env.append

/-- The manager once an observation is recorded and rejected. -/
def Manager.refuse (m : Manager φ) (o : PeerObservation φ) : Manager φ :=
  { m with
    equivocationLog := m.equivocationLog.record o
    reputation :=
      if Contradicted m.equivocationLog o then m.reputation.recordEquivocation o.observerId
      else m.reputation }

/-- The decision about an observation that fails a gate. -/
def refusal (m : Manager φ) (o : PeerObservation φ) : DecisionType :=
  if Contradicted m.equivocationLog o then .equivocation else .insufficientQuorum

/-- The manager once an observation is recorded and committed. -/
def Manager.commit (cfg : Config φ) (m : Manager φ) (o : PeerObservation φ) (auditLog : AuditLog) :
    Manager φ :=
  { m with
    equivocationLog := m.equivocationLog.record o
    auditLog
    seenObservations := m.seenObservations.touch cfg.maxCacheSize (dedupKey o) ()
    lastAppliedKey := m.lastAppliedKey.touch cfg.maxCacheSize o.peerId (orderKey o)
    kBucket := m.kBucket.update cfg.keyOf o.peerId o.timestamp }

section Apply

variable {m : Manager φ} {o : PeerObservation φ} {oldStatus : String} {env : StageEnv φ}

theorem recordObservation_fst (log : EquivocationLog φ) (detectedAt : φ) :
    (log.recordObservation o detectedAt).1 = log.record o := rfl

theorem recordObservation_eq_nil (log : EquivocationLog φ) (detectedAt : φ) :
    (log.recordObservation o detectedAt).2 = [] ↔ ¬ Contradicted log o := by
  simp [EquivocationLog.recordObservation, Contradicted]

/-- An observation that fails a gate is recorded and rejected. -/
theorem applyObservation_of_not_passes (oldStatus : String) (env : StageEnv φ)
    (h : ¬ Passes cfg m o) :
    ∃ reason findings, applyObservation cfg m o oldStatus (dedupKey o) env =
      reject cfg (m.refuse o) o (refusal m o) reason oldStatus env findings ∧
        ¬ reason.IsBufferFull := by
  by_cases hc : Contradicted m.equivocationLog o
  · have hev : (m.equivocationLog.recordObservation o env.detectedAt).2 ≠ [] := fun he =>
      (recordObservation_eq_nil _ _).mp he hc
    rw [applyObservation, Manager.refuse, refusal, if_pos hc, if_pos hc]
    simp only [if_pos hev]
    exact ⟨_, _, rfl, id⟩
  · have hev : (m.equivocationLog.recordObservation o env.detectedAt).2 = [] :=
      (recordObservation_eq_nil _ _).mpr hc
    rw [applyObservation, Manager.refuse, refusal, if_neg hc, if_neg hc]
    simp only [hev, ne_eq, not_true, if_false]
    by_cases hq : checkQuorum cfg o
    · have hw : ¬ (weighted cfg m.reputation o).passes := fun hw => h ⟨hc, hq, hw⟩
      unfold weighted at hw
      simp only [hq, not_true, if_false, if_pos hw]
      exact ⟨_, _, rfl, id⟩
    · simp only [if_pos hq]
      exact ⟨_, _, rfl, id⟩

/-- What an accepted observation gets. -/
structure Approved (cfg : Config φ) (m : Manager φ) (o : PeerObservation φ) (entry : AuditEntry)
    (r : StateTransitionResult φ) : Prop where
  accepted : r.accepted = true
  decisionType : r.decisionType ≠ .buffered
  peerId : r.peerId = o.peerId
  rejectionReason : r.rejectionReason = none
  auditEntry : r.auditEntry = some entry
  weightedQuorum : r.findings.weightedQuorum = some (weighted cfg m.reputation o)

/-- How applying an observation can go. -/
inductive ApplyCase (cfg : Config φ) (m : Manager φ) (o : PeerObservation φ) (oldStatus : String)
    (env : StageEnv φ) : Outcome φ (StateTransitionResult φ) → Prop
  | committed {log : AuditLog} {entry : AuditEntry} {r : StateTransitionResult φ}
      (h : Passes cfg m o) (happrove : approve cfg m o oldStatus env = (log, .ok entry))
      (hresult : Approved cfg m o entry r) :
      ApplyCase cfg m o oldStatus env (m.commit cfg o log, .ok r)
  | failed {log : AuditLog} {e : AuditError} (h : Passes cfg m o)
      (happrove : approve cfg m o oldStatus env = (log, .error e)) :
      ApplyCase cfg m o oldStatus env
        ({ m with equivocationLog := m.equivocationLog.record o, auditLog := log }, .error e)
  | refused {reason : Reason φ} {findings : Findings φ} (h : ¬ Passes cfg m o)
      (hreason : ¬ reason.IsBufferFull) :
      ApplyCase cfg m o oldStatus env
        (reject cfg (m.refuse o) o (refusal m o) reason oldStatus env findings)

theorem applyObservation_cases (cfg : Config φ) (m : Manager φ) (o : PeerObservation φ)
    (oldStatus : String) (env : StageEnv φ) :
    ApplyCase cfg m o oldStatus env (applyObservation cfg m o oldStatus (dedupKey o) env) := by
  by_cases h : Passes cfg m o
  · have hev : (m.equivocationLog.recordObservation o env.detectedAt).2 = [] :=
      (recordObservation_eq_nil _ _).mpr h.consistent
    have hq : checkQuorum cfg o = true := h.quorum
    have hw : (weightVotes cfg m.reputation o (buildQuorumVote cfg o true)).passes = true := h.weight
    have happrove : approve cfg m o oldStatus env = m.auditLog.append cfg.verifier
        (approval cfg m o oldStatus) env.append := rfl
    rw [applyObservation]
    simp only [hev, ne_eq, not_true, if_false, hq, hw]
    unfold approval weighted at happrove
    cases ha : m.auditLog.append cfg.verifier _ env.append with
    | mk log entry =>
        rw [ha] at happrove
        cases entry with
        | error e => exact .failed h happrove
        | ok entry =>
            refine .committed h happrove ⟨rfl, ?_, rfl, rfl, rfl, rfl⟩
            dsimp only
            split
            · nofun
            · nofun
  · obtain ⟨reason, findings, happly, hreason⟩ :=
      applyObservation_of_not_passes oldStatus env h
    rw [happly]
    exact .refused h hreason

end Apply

/-! ## One round of the flush -/

/-- The buffer of a peer without an entry. -/
def Manager.pop (m : Manager φ) (peerId : String) (key : Key) : Manager φ :=
  m.setBuffer peerId ((m.buffer peerId).erase key)

/-- The entry of a peer that comes next after its watermark. -/
structure NextUp (m : Manager φ) (peerId : String) (last : Key) (entry : Waiting φ) : Prop where
  watermark : m.lastAppliedKey.get? peerId = some last
  entry : (m.buffer peerId).get? last.next = some entry

/-- How a round of the flush can go. -/
inductive RoundCase (cfg : Config φ) (peerId : String) (env : StageEnv φ) (m : Manager φ) :
    Round φ → Prop
  | idle (h : ∀ last entry, ¬ NextUp m peerId last entry) :
      RoundCase cfg peerId env m (.stop (m, .ok []))
  | expired {last : Key} {o : PeerObservation φ} {oldStatus : String} {m' : Manager φ}
      {result : Except AuditError (StateTransitionResult φ)}
      (h : NextUp m peerId last (o, oldStatus)) (hstale : o.isStale env.now)
      (hreject : reject cfg (m.pop peerId last.next) o .stale .expiredBeforeGapFilled
        oldStatus env {} = (m', result)) :
      RoundCase cfg peerId env m (.stop (m', result.map fun result => [(o, result)]))
  | seen {last : Key} {o : PeerObservation φ} {oldStatus : String}
      (h : NextUp m peerId last (o, oldStatus)) (hfresh : ¬ o.isStale env.now)
      (hseen : dedupKey o ∈ m.seenObservations.keys) :
      RoundCase cfg peerId env m
        (.next ((m.pop peerId last.next).advance cfg peerId o) [])
  | raised {last : Key} {o : PeerObservation φ} {oldStatus : String} {m' : Manager φ}
      {e : AuditError} (h : NextUp m peerId last (o, oldStatus)) (hfresh : ¬ o.isStale env.now)
      (hseen : dedupKey o ∉ m.seenObservations.keys)
      (happly : applyObservation cfg (m.pop peerId last.next) o oldStatus (dedupKey o)
        env = (m', .error e)) :
      RoundCase cfg peerId env m
        (.stop (m'.restore peerId last.next (o, oldStatus), .error e))
  | skipped {last : Key} {o : PeerObservation φ} {oldStatus : String} {m' : Manager φ}
      {r : StateTransitionResult φ} (h : NextUp m peerId last (o, oldStatus))
      (hfresh : ¬ o.isStale env.now) (hseen : dedupKey o ∉ m.seenObservations.keys)
      (happly : applyObservation cfg (m.pop peerId last.next) o oldStatus (dedupKey o)
        env = (m', .ok r)) (hlast : m'.lastAppliedKey.get? peerId = some last) :
      RoundCase cfg peerId env m
        (.next ((m'.markSeen cfg o).advance cfg peerId o)
          [(o, { r with metadata := { r.metadata with processedWatermarkAdvanced := true } })])
  | applied {last : Key} {o : PeerObservation φ} {oldStatus : String} {m' : Manager φ}
      {r : StateTransitionResult φ} (h : NextUp m peerId last (o, oldStatus))
      (hfresh : ¬ o.isStale env.now) (hseen : dedupKey o ∉ m.seenObservations.keys)
      (happly : applyObservation cfg (m.pop peerId last.next) o oldStatus (dedupKey o)
        env = (m', .ok r)) (hlast : m'.lastAppliedKey.get? peerId ≠ some last) :
      RoundCase cfg peerId env m (.next m' [(o, r)])

theorem flushRound_cases (cfg : Config φ) (peerId : String) (env : StageEnv φ) (m : Manager φ) :
    RoundCase cfg peerId env m (flushRound cfg peerId env m) := by
  unfold flushRound
  cases hlast : m.lastAppliedKey.get? peerId with
  | none =>
      refine .idle fun last entry h => ?_
      rw [h.watermark] at hlast
      cases hlast
  | some last =>
      cases hget : (m.buffer peerId).get? last.next with
      | none =>
          simp only [hget]
          refine .idle fun last' entry h => ?_
          obtain rfl := Option.some.inj (hlast.symm.trans h.watermark)
          rw [h.entry] at hget
          cases hget
      | some entry =>
          obtain ⟨o, oldStatus⟩ := entry
          have h : NextUp m peerId last (o, oldStatus) := ⟨hlast, hget⟩
          simp only [hget]
          split
          · rename_i hstale
            exact .expired h hstale rfl
          · rename_i hfresh
            split
            · rename_i hseen
              exact .seen h hfresh hseen
            · rename_i hseen
              split
              · rename_i m' e happly
                exact .raised h hfresh hseen happly
              · rename_i m' r happly
                split
                · rename_i hkept
                  exact .skipped h hfresh hseen happly hkept
                · rename_i hmoved
                  exact .applied h hfresh hseen happly hmoved

/-- The results that an outcome returns; none when it raises. -/
def returned : Except Audit.AuditError (List (Decided φ)) → List (Decided φ)
  | .ok ds => ds
  | .error _ => []

/-- The manager after a round. -/
def Round.manager : Round φ → Manager φ
  | .stop outcome => outcome.1
  | .next m _ => m

/-- The results of a round. -/
def Round.decided : Round φ → List (Decided φ)
  | .stop outcome => returned outcome.2
  | .next _ ds => ds

/-! ## A call -/

/-- The call gets as far as applying its observation. -/
structure Applies (m : Manager φ) (c : Call φ) : Prop where
  unseen : dedupKey c.obs ∉ m.seenObservations.keys
  inOrder : place (m.lastAppliedKey.get? c.obs.peerId) (orderKey c.obs) = .inOrder
  fresh : ¬ c.obs.isStale c.env.now

/-- The call puts its observation into the reorder buffer. -/
structure Holds (cfg : Config φ) (m : Manager φ) (c : Call φ) : Prop where
  ahead : place (m.lastAppliedKey.get? c.obs.peerId) (orderKey c.obs) = .ahead
  free : (m.buffer c.obs.peerId).get? (orderKey c.obs) = none
  room : (m.buffer c.obs.peerId).size < cfg.reorderBufferMax

/-- The manager with the observation of a call in the reorder buffer. -/
def Manager.hold (cfg : Config φ) (m : Manager φ) (c : Call φ) : Manager φ :=
  { m with
    reorderBuffer := m.reorderBuffer.touch cfg.maxCacheSize c.obs.peerId
      (((m.buffer c.obs.peerId).set (orderKey c.obs) (c.obs, c.oldStatus)).moveToEnd
        (orderKey c.obs)) }

/-- What an observation gets that waits. -/
structure HeldBack (r : StateTransitionResult φ) : Prop where
  accepted : r.accepted = false
  decisionType : r.decisionType = .buffered
  rejectionReason : ∀ reason ∈ r.rejectionReason, ¬ reason.IsBufferFull
  auditEntry : r.auditEntry = none

/-- How a call can go. -/
inductive CallCase (cfg : Config φ) (m : Manager φ) (c : Call φ) : Outcome φ (Evaluation φ) → Prop
  | refused {decision : DecisionType} {reason : Reason φ}
      {outcome : Outcome φ (StateTransitionResult φ)} (h : ¬ Applies m c)
      (hreject : reject cfg m c.obs decision reason c.oldStatus c.env {} = outcome)
      (hfull : reason.IsBufferFull →
        place (m.lastAppliedKey.get? c.obs.peerId) (orderKey c.obs) = .ahead ∧
          cfg.reorderBufferMax ≤ (m.buffer c.obs.peerId).size)
      (hdecision : decision ≠ .buffered) :
      CallCase cfg m c (alone outcome)
  | retried {result : StateTransitionResult φ} (h : ¬ Applies m c) (hresult : HeldBack result) :
      CallCase cfg m c (m, .ok { result })
  | held {result : StateTransitionResult φ} (h : ¬ Applies m c) (hholds : Holds cfg m c)
      (hresult : HeldBack result) :
      CallCase cfg m c (m.hold cfg c, .ok { result })
  | raised {m' : Manager φ} {e : AuditError} (h : Applies m c)
      (happly : applyObservation cfg m c.obs c.oldStatus (dedupKey c.obs) c.env = (m', .error e)) :
      CallCase cfg m c (m', .error e)
  | applied {m' : Manager φ} {result : StateTransitionResult φ} (h : Applies m c)
      (happly : applyObservation cfg m c.obs c.oldStatus (dedupKey c.obs) c.env =
        (m', .ok result)) :
      CallCase cfg m c
        (let (m, flushed) := flushReorderBuffer cfg c.obs.peerId c.flushEnv m'
        (m, flushed.map fun flushed => { result, flushed }))

theorem evaluate_cases [PyReal.Text φ] (cfg : Config φ) (m : Manager φ) (c : Call φ) :
    CallCase cfg m c (evaluate cfg m c) := by
  unfold evaluate
  dsimp only
  split
  · rename_i hseen
    exact .refused (fun h => h.unseen hseen) rfl False.elim (by simp)
  · rename_i hseen
    split
    · rename_i hplace
      exact .refused (fun h => by rw [h.inOrder] at hplace; cases hplace) rfl False.elim (by simp)
    · rename_i hplace
      have hnot : ¬ Applies m c := fun h => by rw [h.inOrder] at hplace; cases hplace
      unfold bufferObservation
      dsimp only
      split
      · exact .refused hnot rfl False.elim (by simp)
      · split
        · rename_i existing hget
          split
          · exact .refused hnot rfl False.elim (by simp)
          · exact .retried hnot ⟨rfl, rfl, by rintro _ ⟨⟩ h; exact h, rfl⟩
        · rename_i hget
          split
          · rename_i hfull
            exact .refused hnot rfl (fun _ => ⟨hplace, hfull⟩) (by simp)
          · rename_i hroom
            exact .held hnot ⟨hplace, hget, Nat.lt_of_not_le hroom⟩
              ⟨rfl, rfl, by rintro _ ⟨⟩ h; exact h, rfl⟩
    · rename_i hplace
      split
      · rename_i hstale
        exact .refused (fun h => h.fresh hstale) rfl False.elim (by simp)
      · rename_i hfresh
        have happ : Applies m c := ⟨hseen, hplace, hfresh⟩
        split
        · rename_i m' e happly
          exact .raised happ happly
        · rename_i m' result happly
          exact .applied happ happly

/-- A refusal for a full buffer comes from a full buffer. -/
theorem buffer_of_bufferFull [PyReal.Text φ] {cfg : Config φ} {m : Manager φ} {c : Call φ}
    {e : Evaluation φ} (h : (evaluate cfg m c).2 = .ok e) {reason : Reason φ}
    (hreason : e.result.rejectionReason = some reason) (hfull : reason.IsBufferFull) :
    place (m.lastAppliedKey.get? c.obs.peerId) (orderKey c.obs) = .ahead ∧
      cfg.reorderBufferMax ≤ (m.buffer c.obs.peerId).size := by
  have hcase := evaluate_cases cfg m c
  generalize evaluate cfg m c = outcome at h hcase
  cases hcase with
  | @refused _ reason' outcome _ hreject hbuffer _ =>
      obtain ⟨m', result⟩ := outcome
      cases result with
      | error _ => cases h
      | ok r =>
          cases h
          have hr := rejectionReason_of_reject (congrArg Prod.snd hreject)
          rw [hr] at hreason
          exact hbuffer (Option.some.inj hreason ▸ hfull)
  | retried _ hresult => cases h; exact absurd hfull (hresult.rejectionReason reason hreason)
  | held _ _ hresult => cases h; exact absurd hfull (hresult.rejectionReason reason hreason)
  | raised _ _ => cases h
  | @applied m' r _ happly =>
      have hresult : e.result = r := by
        simp only [Except.map] at h
        split at h
        · cases h
        · cases h; rfl
      rw [hresult] at hreason
      have hcase := applyObservation_cases cfg m c.obs c.oldStatus c.env
      generalize applyObservation cfg m c.obs c.oldStatus (dedupKey c.obs) c.env = out at happly hcase
      cases hcase with
      | committed _ _ hok =>
          obtain rfl := Except.ok.inj (congrArg Prod.snd happly)
          rw [hok.rejectionReason] at hreason
          cases hreason
      | failed _ _ => cases happly
      | refused _ hnot =>
          have hr := rejectionReason_of_reject (congrArg Prod.snd happly)
          rw [hr] at hreason
          exact absurd (Option.some.inj hreason ▸ hfull) hnot

end Perpetua.Transition

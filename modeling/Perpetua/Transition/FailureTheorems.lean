import Mathlib.Logic.Relation
import Perpetua.Transition.DecisionTheorems
import Perpetua.Transition.Lemmas.Reassembly

/-!
# Calls that raise

An append to the audit log that raises adds no entry. What its decision leaves behind is the record of
the observation in the equivocation log; what the call committed before stays.
-/

namespace Perpetua.Transition

open Perpetua.Membership Audit

/-! ## Managers with the same entries -/

section Alike

variable {φ : Type} [PyReal φ] (cfg : Config φ) {m m' : Manager φ}

/-- The managers differ at most in where their audit logs are written. -/
structure Alike (m m' : Manager φ) : Prop where
  others : m' = { m with auditLog := m'.auditLog }
  entries : m'.auditLog.entries = m.auditLog.entries

/-- The same is returned or raised, and the managers are alike. -/
structure AlikeOutcome {α : Type} (out out' : Outcome φ α) : Prop where
  result : out'.2 = out.2
  manager : Alike out.1 out'.1

/-- Two rounds of which neither or both stop. -/
inductive AlikeRound : Round φ → Round φ → Prop
  | stop {out out' : Outcome φ (List (Decided φ))} (h : AlikeOutcome out out') :
      AlikeRound (.stop out) (.stop out')
  | next {m m' : Manager φ} (h : Alike m m') (decided : List (Decided φ)) :
      AlikeRound (.next m decided) (.next m' decided)

theorem append_of_entries (verifier : Option SignatureVerifier) {log log' : AuditLog}
    (h : log'.entries = log.entries) (args : AppendArgs) {env : AppendEnv} (hfault : env.fault = none) :
    (log'.append verifier args env).2 = (log.append verifier args env).2 ∧
      (log'.append verifier args env).1.entries = (log.append verifier args env).1.entries := by
  have hnext : log'.nextEntry args env.now = log.nextEntry args env.now := by
    unfold AuditLog.nextEntry
    rw [h]
  unfold AuditLog.append
  rw [h, hnext, hfault]
  cases verifyChain verifier log.entries with
  | error e => exact ⟨rfl, h⟩
  | ok _ =>
      cases log.nextEntry args env.now with
      | none => exact ⟨rfl, h⟩
      | some entry => simp [write_of_no_fault]

theorem reject_alike (h : Alike m m') (o : PeerObservation φ) (decision : DecisionType)
    (reason : Reason φ) (oldStatus : String) {env : StageEnv φ} (hfault : env.append.fault = none)
    (findings : Findings φ) :
    AlikeOutcome (reject cfg m o decision reason oldStatus env findings)
      (reject cfg m' o decision reason oldStatus env findings) := by
  obtain ⟨hresult, hentries⟩ := append_of_entries cfg.verifier h.entries
    (rejection cfg o decision oldStatus) hfault
  refine ⟨?_, ?_, ?_⟩
  · rw [reject_snd, reject_snd, hresult]
  · rw [reject_fst, reject_fst, h.others]
  · rw [reject_fst, reject_fst]
    exact hentries

theorem Alike.eq_with (h : Alike m m') : ∃ log : AuditLog, m' = { m with auditLog := log } ∧
    log.entries = m.auditLog.entries := ⟨m'.auditLog, h.others, h.entries⟩

theorem applyObservation_alike (h : Alike m m') (o : PeerObservation φ) (oldStatus dedupKey : String)
    {env : StageEnv φ} (hfault : env.append.fault = none) :
    AlikeOutcome (applyObservation cfg m o oldStatus dedupKey env)
      (applyObservation cfg m' o oldStatus dedupKey env) := by
  obtain ⟨log, rfl, hentries⟩ := h.eq_with
  unfold applyObservation
  dsimp only
  have hreject : ∀ (m₁ : Manager φ) decision reason findings, m₁.auditLog = m.auditLog →
      AlikeOutcome (reject cfg m₁ o decision reason oldStatus env findings)
        (reject cfg { m₁ with auditLog := log } o decision reason oldStatus env findings) :=
    fun m₁ decision reason findings hlog =>
      reject_alike cfg ⟨rfl, hentries.trans (congrArg AuditLog.entries hlog.symm)⟩ o decision reason oldStatus
        hfault findings
  split_ifs
  any_goals exact hreject _ _ _ _ rfl
  all_goals
    generalize hargs : AppendArgs.mk _ _ _ _ _ _ = args
    obtain ⟨hresult, hadded⟩ := append_of_entries cfg.verifier hentries args hfault
    generalize m.auditLog.append cfg.verifier args env.append = appended at hresult hadded ⊢
    generalize log.append cfg.verifier args env.append = appended' at hresult hadded ⊢
    obtain ⟨log₁, result⟩ := appended
    obtain ⟨log₂, result'⟩ := appended'
    obtain rfl : result' = result := hresult
    cases result' with
    | error e => exact ⟨rfl, rfl, hadded⟩
    | ok entry => exact ⟨rfl, rfl, hadded⟩

theorem flushRound_alike (h : Alike m m') (peerId : String) {env : StageEnv φ}
    (hfault : env.append.fault = none) :
    AlikeRound (flushRound cfg peerId env m) (flushRound cfg peerId env m') := by
  obtain ⟨log, rfl, hentries⟩ := h.eq_with
  unfold flushRound
  dsimp only
  cases hlast : m.lastAppliedKey.get? peerId with
  | none => exact .stop ⟨rfl, rfl, hentries⟩
  | some last =>
      have hbuffer : ({ m with auditLog := log } : Manager φ).buffer peerId = m.buffer peerId := rfl
      cases hget : (m.buffer peerId).get? last.next with
      | none =>
          simp only [hbuffer, hget]
          exact .stop ⟨rfl, rfl, hentries⟩
      | some entry =>
          obtain ⟨o, oldStatus⟩ := entry
          simp only [hbuffer, hget]
          have hpopped : Alike (m.setBuffer peerId ((m.buffer peerId).erase last.next))
              (({ m with auditLog := log } : Manager φ).setBuffer peerId
                ((m.buffer peerId).erase last.next)) := ⟨rfl, hentries⟩
          generalize m.setBuffer peerId ((m.buffer peerId).erase last.next) = popped at hpopped ⊢
          generalize ({ m with auditLog := log } : Manager φ).setBuffer peerId
            ((m.buffer peerId).erase last.next) = popped' at hpopped ⊢
          have hseen : popped'.seenObservations = popped.seenObservations := by rw [hpopped.others]
          rw [hseen]
          split_ifs
          · obtain ⟨hresult, hmanager⟩ := reject_alike cfg hpopped o .stale
              .expiredBeforeGapFilled oldStatus hfault {}
            exact .stop ⟨congrArg (Except.map fun result => [(o, result)]) hresult, hmanager⟩
          · obtain ⟨log₂, rfl, hlog⟩ := hpopped.eq_with
            exact .next ⟨rfl, hlog⟩ []
          · obtain ⟨hresult, hmanager⟩ := applyObservation_alike cfg hpopped o oldStatus
              (dedupKey o) hfault
            generalize applyObservation cfg popped o oldStatus (dedupKey o) env = out
              at hresult hmanager ⊢
            generalize applyObservation cfg popped' o oldStatus (dedupKey o) env = out'
              at hresult hmanager ⊢
            obtain ⟨m₁, result⟩ := out
            obtain ⟨m₂, result'⟩ := out'
            obtain rfl : result' = result := hresult
            obtain ⟨log₂, rfl, hlog⟩ := hmanager.eq_with
            cases result' with
            | error e => exact .stop ⟨rfl, rfl, hlog⟩
            | ok r =>
                dsimp only
                split_ifs
                · exact .next ⟨rfl, hlog⟩ _
                · exact .next ⟨rfl, hlog⟩ _

theorem flushLoop_alike (h : Alike m m') (peerId : String) {envs : ℕ → StageEnv φ}
    (hfault : ∀ i, (envs i).append.fault = none) (rounds : ℕ) :
    AlikeOutcome (flushLoop cfg peerId rounds envs m) (flushLoop cfg peerId rounds envs m') := by
  induction rounds generalizing m m' envs with
  | zero => exact ⟨rfl, h⟩
  | succ rounds ih =>
      have hround := flushRound_alike cfg h peerId (hfault 0)
      rw [flushLoop, flushLoop]
      generalize flushRound cfg peerId (envs 0) m = round at hround ⊢
      generalize flushRound cfg peerId (envs 0) m' = round' at hround ⊢
      cases hround with
      | stop hout => exact hout
      | next hm decided =>
          obtain ⟨hresult, hmanager⟩ := ih hm fun i => hfault (i + 1)
          exact ⟨congrArg (Except.map (decided ++ ·)) hresult, hmanager⟩

theorem flushReorderBuffer_alike (h : Alike m m') (peerId : String) {envs : ℕ → StageEnv φ}
    (hfault : ∀ i, (envs i).append.fault = none) :
    AlikeOutcome (flushReorderBuffer cfg peerId envs m) (flushReorderBuffer cfg peerId envs m') := by
  have hbuffer : m'.buffer peerId = m.buffer peerId := by
    rw [h.others]
    rfl
  unfold flushReorderBuffer
  dsimp only
  rw [hbuffer]
  split_ifs
  · exact ⟨rfl, h⟩
  · have hloop := flushLoop_alike cfg h peerId hfault (m.buffer peerId).size
    generalize flushLoop cfg peerId (m.buffer peerId).size envs m = out at hloop ⊢
    generalize flushLoop cfg peerId (m.buffer peerId).size envs m' = out' at hloop ⊢
    obtain ⟨m₁, result⟩ := out
    obtain ⟨m₂, result'⟩ := out'
    obtain rfl : result' = result := hloop.result
    obtain ⟨log, rfl, hlog⟩ := hloop.manager.eq_with
    cases result' with
    | error e => exact ⟨rfl, rfl, hlog⟩
    | ok flushed =>
        dsimp only
        have hdrained : ({ m₁ with auditLog := log } : Manager φ).buffer peerId = m₁.buffer peerId := rfl
        rw [hdrained]
        split_ifs
        · exact ⟨rfl, rfl, hlog⟩
        · exact ⟨rfl, rfl, hlog⟩

/-- The audit log works throughout the call. -/
structure Call.Works (c : Call φ) : Prop where
  own : c.env.append.fault = none
  flush : ∀ i, (c.flushEnv i).append.fault = none

theorem bufferObservation_alike [PyReal.Text φ] (h : Alike m m') (o : PeerObservation φ)
    (oldStatus : String) {env : StageEnv φ} (hfault : env.append.fault = none) :
    AlikeOutcome (bufferObservation cfg m o oldStatus env) (bufferObservation cfg m' o oldStatus env) := by
  have hbuffer : m'.buffer o.peerId = m.buffer o.peerId := by
    rw [h.others]
    rfl
  unfold bufferObservation
  dsimp only
  rw [hbuffer]
  by_cases hstale : o.isStale env.now
  · rw [if_pos hstale, if_pos hstale]
    exact reject_alike cfg h _ _ _ _ hfault _
  rw [if_neg hstale, if_neg hstale]
  cases (m.buffer o.peerId).get? (orderKey o) with
  | some existing =>
      dsimp only
      split_ifs
      · exact reject_alike cfg h _ _ _ _ hfault _
      · exact ⟨rfl, h⟩
  | none =>
      dsimp only
      split_ifs
      · exact reject_alike cfg h _ _ _ _ hfault _
      · obtain ⟨log, rfl, hlog⟩ := h.eq_with
        exact ⟨rfl, rfl, hlog⟩

theorem AlikeOutcome.alone {out out' : Outcome φ (StateTransitionResult φ)} (h : AlikeOutcome out out') :
    AlikeOutcome (alone out) (alone out') :=
  ⟨congrArg (Except.map fun result => ({ result } : Evaluation φ)) h.result, h.manager⟩

/-- Alike managers decide alike while the audit log works. -/
theorem evaluate_alike [PyReal.Text φ] (h : Alike m m') {c : Call φ} (hworks : c.Works) :
    AlikeOutcome (evaluate cfg m c) (evaluate cfg m' c) := by
  have hseen : m'.seenObservations = m.seenObservations := by rw [h.others]
  have hlast : m'.lastAppliedKey = m.lastAppliedKey := by rw [h.others]
  unfold evaluate
  dsimp only
  rw [hseen, hlast]
  by_cases hknown : dedupKey c.obs ∈ m.seenObservations.keys
  · rw [if_pos hknown, if_pos hknown]
    exact (reject_alike cfg h _ _ _ _ hworks.own _).alone
  rw [if_neg hknown, if_neg hknown]
  cases place (m.lastAppliedKey.get? c.obs.peerId) (orderKey c.obs) with
  | behind last => exact (reject_alike cfg h _ _ _ _ hworks.own _).alone
  | ahead => exact (bufferObservation_alike cfg h _ _ hworks.own).alone
  | inOrder =>
      dsimp only
      split_ifs
      · exact (reject_alike cfg h _ _ _ _ hworks.own _).alone
      · have happly := applyObservation_alike cfg h c.obs c.oldStatus (dedupKey c.obs) hworks.own
        generalize applyObservation cfg m c.obs c.oldStatus (dedupKey c.obs) c.env = out at happly ⊢
        generalize applyObservation cfg m' c.obs c.oldStatus (dedupKey c.obs) c.env = out' at happly ⊢
        obtain ⟨m₁, result⟩ := out
        obtain ⟨m₂, result'⟩ := out'
        obtain rfl : result' = result := happly.result
        cases result' with
        | error e => exact ⟨rfl, happly.manager⟩
        | ok r =>
            obtain ⟨hresult, hmanager⟩ :=
              flushReorderBuffer_alike cfg happly.manager c.obs.peerId hworks.flush
            exact ⟨congrArg (Except.map _) hresult, hmanager⟩

end Alike

/-! ## What a failed commit leaves -/

section Failures

variable {φ : Type} [PyReal φ] {cfg : Config φ} {m m' : Manager φ}

/-- The rounds of a flush in their environments that go on, and where they lead. -/
inductive GoesOn (cfg : Config φ) (peerId : String) (envs : ℕ → StageEnv φ) (m : Manager φ) :
    ℕ → Manager φ → Prop
  | start : GoesOn cfg peerId envs m 0 m
  | next {n : ℕ} {m₁ m₂ : Manager φ} {ds : List (Decided φ)} (h : GoesOn cfg peerId envs m n m₁)
      (hround : flushRound cfg peerId (envs n) m₁ = .next m₂ ds) : GoesOn cfg peerId envs m (n + 1) m₂

/-- What a flush that raises leaves: after rounds that go on, the decision about the next entry is not
recorded. A live entry is back at the front of its buffer. -/
inductive FlushFailed (cfg : Config φ) (peerId : String) (envs : ℕ → StageEnv φ) (m : Manager φ) :
    Manager φ → Prop
  | live {n : ℕ} {m₁ m' : Manager φ} {last : Key} {o : PeerObservation φ} {oldStatus : String}
      (hrounds : GoesOn cfg peerId envs m n m₁) (hnext : NextUp m₁ peerId last (o, oldStatus))
      (hlive : ¬ o.isStale (envs n).now)
      (hkept : Alike (((m₁.pop peerId last.next).refuse o).restore peerId last.next (o, oldStatus)) m') :
      FlushFailed cfg peerId envs m m'
  | expired {n : ℕ} {m₁ m' : Manager φ} {last : Key} {o : PeerObservation φ} {oldStatus : String}
      (hrounds : GoesOn cfg peerId envs m n m₁) (hnext : NextUp m₁ peerId last (o, oldStatus))
      (hstale : o.isStale (envs n).now)
      (hkept : Alike m₁ { m' with reorderBuffer := m₁.reorderBuffer }) :
      FlushFailed cfg peerId envs m m'

/-- What a call that raises leaves, by the decision that is not recorded. -/
inductive FailedCommit (cfg : Config φ) (m : Manager φ) (c : Call φ) (e : AuditError) : Manager φ → Prop
  | refused {m' : Manager φ} (h : ¬ Applies m c) (hkept : Alike m m') : FailedCommit cfg m c e m'
  | own {m' : Manager φ} (h : Applies m c)
      (hraises : (applyObservation cfg m c.obs c.oldStatus (dedupKey c.obs) c.env).2 = .error e)
      (hkept : Alike (m.refuse c.obs) m') : FailedCommit cfg m c e m'
  | flush {m₁ m' : Manager φ} {result : StateTransitionResult φ} (h : Applies m c)
      (happly : applyObservation cfg m c.obs c.oldStatus (dedupKey c.obs) c.env = (m₁, .ok result))
      (hflush : FlushFailed cfg c.obs.peerId c.flushEnv m₁ m') : FailedCommit cfg m c e m'

theorem alike_of_reject {o : PeerObservation φ} {decision : DecisionType} {reason : Reason φ}
    {oldStatus : String} {env : StageEnv φ} {findings : Findings φ} {e : AuditError}
    (h : reject cfg m o decision reason oldStatus env findings = (m', .error e)) : Alike m m' := by
  have hmanager := congrArg Prod.fst h
  have hresult := congrArg Prod.snd h
  rw [reject_fst] at hmanager
  rw [reject_snd] at hresult
  cases happend : m.auditLog.append cfg.verifier (rejection cfg o decision oldStatus) env.append with
  | mk log result =>
      rw [happend] at hmanager hresult
      cases result with
      | ok entry => cases hresult
      | error err =>
          dsimp only at hmanager
          rw [← hmanager]
          exact ⟨rfl, entries_of_append_error happend⟩

theorem alike_of_applyObservation {o : PeerObservation φ} {oldStatus : String} {env : StageEnv φ}
    {e : AuditError} (h : applyObservation cfg m o oldStatus (dedupKey o) env = (m', .error e)) :
    Alike (m.refuse o) m' := by
  have hcase := applyObservation_cases cfg m o oldStatus env
  generalize applyObservation cfg m o oldStatus (dedupKey o) env = out at h hcase
  cases hcase with
  | committed _ _ _ => cases h
  | failed hpasses happrove =>
      cases h
      refine ⟨?_, entries_of_append_error happrove⟩
      rw [Manager.refuse, if_neg hpasses.consistent]
  | refused _ _ => exact alike_of_reject h

theorem Alike.restore (h : Alike m m') (peerId : String) (key : Key) (entry : Waiting φ) :
    Alike (m.restore peerId key entry) (m'.restore peerId key entry) := by
  obtain ⟨log, rfl, hlog⟩ := h.eq_with
  exact ⟨rfl, hlog⟩

theorem flushFailed_of_stop {peerId : String} {envs : ℕ → StageEnv φ} {e : AuditError}
    (h : flushRound cfg peerId (envs 0) m = .stop (m', .error e)) :
    FlushFailed cfg peerId envs m m' := by
  have hcase := flushRound_cases cfg peerId (envs 0) m
  rw [h] at hcase
  generalize hround : Round.stop (m', Except.error e) = round at hcase
  cases hcase with
  | idle _ => cases hround
  | @expired last o oldStatus m₁ result hnext hstale hreject =>
      cases result with
      | ok r => cases hround
      | error _ =>
          cases hround
          have hkept := alike_of_reject hreject
          refine .expired .start hnext hstale ⟨?_, hkept.entries⟩
          rw [hkept.others]
          rfl
  | seen _ _ _ => cases hround
  | raised hnext hfresh _ happly =>
      cases hround
      exact .live .start hnext hfresh ((alike_of_applyObservation happly).restore _ _ _)
  | skipped _ _ _ _ _ => cases hround
  | applied _ _ _ _ _ => cases hround

theorem GoesOn.head {peerId : String} {envs : ℕ → StageEnv φ} {m₁ m₂ : Manager φ} {n : ℕ}
    {ds : List (Decided φ)} (hround : flushRound cfg peerId (envs 0) m = .next m₁ ds)
    (h : GoesOn cfg peerId (fun i => envs (i + 1)) m₁ n m₂) : GoesOn cfg peerId envs m (n + 1) m₂ := by
  induction h with
  | start => exact .next .start hround
  | next _ hnext ih => exact .next ih hnext

theorem FlushFailed.after {peerId : String} {envs : ℕ → StageEnv φ} {m₁ : Manager φ}
    {ds : List (Decided φ)} (hround : flushRound cfg peerId (envs 0) m = .next m₁ ds)
    (h : FlushFailed cfg peerId (fun i => envs (i + 1)) m₁ m') : FlushFailed cfg peerId envs m m' := by
  cases h with
  | live hrounds hnext hlive hkept => exact .live (hrounds.head hround) hnext hlive hkept
  | expired hrounds hnext hstale hkept => exact .expired (hrounds.head hround) hnext hstale hkept

theorem flushFailed_of_loop {peerId : String} {e : AuditError} (rounds : ℕ) {envs : ℕ → StageEnv φ}
    (h : flushLoop cfg peerId rounds envs m = (m', .error e)) : FlushFailed cfg peerId envs m m' := by
  induction rounds generalizing m envs with
  | zero => cases h
  | succ rounds ih =>
      rw [flushLoop] at h
      cases hround : flushRound cfg peerId (envs 0) m with
      | stop outcome =>
          rw [hround] at h
          obtain rfl : outcome = (m', .error e) := h
          exact flushFailed_of_stop hround
      | next m₁ ds =>
          rw [hround] at h
          dsimp only at h
          cases hrest : flushLoop cfg peerId rounds (fun i => envs (i + 1)) m₁ with
          | mk m₂ result =>
              rw [hrest] at h
              cases result with
              | ok rest => cases h
              | error _ =>
                  cases h
                  exact (ih hrest).after hround

theorem flushFailed_of_flush {peerId : String} {e : AuditError} {envs : ℕ → StageEnv φ}
    (h : flushReorderBuffer cfg peerId envs m = (m', .error e)) :
    FlushFailed cfg peerId envs m m' := by
  unfold flushReorderBuffer at h
  dsimp only at h
  by_cases hempty : (m.buffer peerId).size = 0
  · rw [if_pos hempty] at h
    cases h
  rw [if_neg hempty] at h
  cases hloop : flushLoop cfg peerId (m.buffer peerId).size envs m with
  | mk m₁ result =>
      rw [hloop] at h
      cases result with
      | error _ =>
          cases h
          exact flushFailed_of_loop _ hloop
      | ok flushed =>
          dsimp only at h
          split_ifs at h
          all_goals cases h

theorem failedCommit_of_evaluate [PyReal.Text φ] {c : Call φ} {e : AuditError}
    (h : evaluate cfg m c = (m', .error e)) : FailedCommit cfg m c e m' := by
  have hcase := evaluate_cases cfg m c
  generalize evaluate cfg m c = out at h hcase
  cases hcase with
  | @refused decision reason outcome hnot hreject _ _ =>
      obtain ⟨m₁, result⟩ := outcome
      cases result with
      | ok r => cases h
      | error _ =>
          cases h
          exact .refused hnot (alike_of_reject hreject)
  | retried _ _ => cases h
  | held _ _ _ => cases h
  | raised happlies happly =>
      cases h
      exact .own happlies (congrArg Prod.snd happly) (alike_of_applyObservation happly)
  | @applied m₁ result happlies happly =>
      cases hflush : flushReorderBuffer cfg c.obs.peerId c.flushEnv m₁ with
      | mk m₂ flushed =>
          rw [hflush] at h
          cases flushed with
          | ok _ => cases h
          | error _ =>
              cases h
              exact .flush happlies happly (flushFailed_of_flush hflush)

/-! ## Retrying -/

/-- The managers differ at most in their equivocation logs and in where their audit logs are written. -/
structure AlikeUpToRecord (m m' : Manager φ) : Prop where
  others : m' = { m with equivocationLog := m'.equivocationLog, auditLog := m'.auditLog }
  entries : m'.auditLog.entries = m.auditLog.entries

/-- An observation does not contradict itself. -/
theorem contradicts_logged (o : PeerObservation φ) : contradicts o (logged o) = false := by
  simp [contradicts, logged]

/-- What has been recorded without contradiction is recorded again without one. -/
theorem not_contradicted_record {log : EquivocationLog φ} {o : PeerObservation φ}
    (h : ¬ Contradicted log o) : ¬ Contradicted (log.record o) o := by
  intro hagain
  rcases hagain.of_record with hbefore | hself
  · exact h hbefore
  · rw [contradicts_logged] at hself
    cases hself

theorem applyObservation_upToRecord (h : AlikeUpToRecord m m') {o : PeerObservation φ}
    (hm : ¬ Contradicted m.equivocationLog o) (hm' : ¬ Contradicted m'.equivocationLog o)
    (oldStatus dedupKey : String) {env : StageEnv φ} (hfault : env.append.fault = none) :
    (applyObservation cfg m' o oldStatus dedupKey env).2 =
        (applyObservation cfg m o oldStatus dedupKey env).2 ∧
      AlikeUpToRecord (applyObservation cfg m o oldStatus dedupKey env).1
        (applyObservation cfg m' o oldStatus dedupKey env).1 := by
  have hnone := (recordObservation_eq_nil _ env.detectedAt).mpr hm
  have hnone' := (recordObservation_eq_nil _ env.detectedAt).mpr hm'
  have hentries := h.entries
  generalize hequivocation : m'.equivocationLog = equivocationLog at hnone' h
  generalize hlog : m'.auditLog = log at hentries h
  have hothers : m' = { m with equivocationLog, auditLog := log } := by
    rw [← hequivocation, ← hlog]
    exact h.others
  subst hothers
  have hreject : ∀ (recorded recorded' : EquivocationLog φ) decision reason findings,
      (reject cfg { m with equivocationLog := recorded', auditLog := log } o decision reason oldStatus
          env findings).2 =
        (reject cfg { m with equivocationLog := recorded } o decision reason oldStatus env findings).2 ∧
      AlikeUpToRecord
        (reject cfg { m with equivocationLog := recorded } o decision reason oldStatus env findings).1
        (reject cfg { m with equivocationLog := recorded', auditLog := log } o decision reason oldStatus
          env findings).1 := by
    intro recorded recorded' decision reason findings
    obtain ⟨hresult, hadded⟩ := append_of_entries cfg.verifier hentries
      (rejection cfg o decision oldStatus) hfault
    rw [reject_snd, reject_snd, reject_fst, reject_fst]
    exact ⟨by rw [hresult], rfl, hadded⟩
  unfold applyObservation
  generalize m.equivocationLog.recordObservation o env.detectedAt = recorded at hnone ⊢
  generalize equivocationLog.recordObservation o env.detectedAt = recorded' at hnone' ⊢
  obtain ⟨recorded, evidences⟩ := recorded
  obtain ⟨recorded', evidences'⟩ := recorded'
  obtain rfl : evidences = [] := hnone
  obtain rfl : evidences' = [] := hnone'
  simp only [ne_eq, not_true, if_false]
  split_ifs
  any_goals exact hreject _ _ _ _ _
  all_goals
    generalize hargs : AppendArgs.mk _ _ _ _ _ _ = args
    obtain ⟨hresult, hadded⟩ := append_of_entries cfg.verifier hentries args hfault
    generalize m.auditLog.append cfg.verifier args env.append = appended at hresult hadded ⊢
    generalize log.append cfg.verifier args env.append = appended' at hresult hadded ⊢
    obtain ⟨log₁, result⟩ := appended
    obtain ⟨log₂, result'⟩ := appended'
    obtain rfl : result' = result := hresult
    cases result' with
    | error e => exact ⟨rfl, rfl, hadded⟩
    | ok entry => exact ⟨rfl, rfl, hadded⟩

/-- How a call goes on a manager whose own failed commit has left a record, beside the manager that has
none: the decision about its observation is the same. -/
structure RetriesOwn [PyReal.Text φ] (cfg : Config φ) (m m' : Manager φ) (c : Call φ) : Prop where
  expired : ¬ Applies m c → (evaluate cfg m' c).2 = (evaluate cfg m c).2 ∧
    AlikeUpToRecord (evaluate cfg m c).1 (evaluate cfg m' c).1
  applies : Applies m c → Applies m' c
  result : (applyObservation cfg m' c.obs c.oldStatus (dedupKey c.obs) c.env).2 =
    (applyObservation cfg m c.obs c.oldStatus (dedupKey c.obs) c.env).2
  manager : AlikeUpToRecord (applyObservation cfg m c.obs c.oldStatus (dedupKey c.obs) c.env).1
    (applyObservation cfg m' c.obs c.oldStatus (dedupKey c.obs) c.env).1

theorem retriesOwn_of_record [PyReal.Text φ] (h : AlikeUpToRecord m m') {c retry : Call φ}
    (happlies : Applies m c) (hobs : retry.obs = c.obs) (hworks : retry.Works)
    (hfresh : ¬ Contradicted m.equivocationLog c.obs)
    (hfresh' : ¬ Contradicted m'.equivocationLog c.obs) : RetriesOwn cfg m m' retry := by
  have hseen : m'.seenObservations = m.seenObservations := by rw [h.others]
  have hlast : m'.lastAppliedKey = m.lastAppliedKey := by rw [h.others]
  have hunseen := happlies.unseen
  have hplace := happlies.inOrder
  rw [← hobs] at hfresh hfresh' hunseen hplace
  obtain ⟨hresult, hmanager⟩ := applyObservation_upToRecord h hfresh hfresh'
    retry.oldStatus (dedupKey retry.obs) hworks.own
  refine ⟨fun hnot => ?_, fun hretry => ⟨?_, ?_, hretry.fresh⟩, hresult, hmanager⟩
  · have hstale : retry.obs.isStale retry.env.now := by
      by_contra hlive
      exact hnot ⟨hunseen, hplace, hlive⟩
    have hexpired : ∀ m₁ : Manager φ, m₁.seenObservations = m.seenObservations →
        m₁.lastAppliedKey = m.lastAppliedKey → evaluate cfg m₁ retry =
          alone (reject cfg m₁ retry.obs .stale .expired retry.oldStatus retry.env {}) := by
      intro m₁ hseen₁ hlast₁
      unfold evaluate
      dsimp only
      rw [hseen₁, hlast₁, if_neg hunseen, hplace]
      exact if_pos hstale
    rw [hexpired m rfl rfl, hexpired m' hseen hlast]
    obtain ⟨hadded, hentries⟩ := append_of_entries cfg.verifier h.entries
      (rejection cfg retry.obs .stale retry.oldStatus) hworks.own
    unfold alone
    rw [reject_snd, reject_snd, reject_fst, reject_fst, hadded]
    refine ⟨rfl, ?_, hentries⟩
    rw [h.others]
  · rw [hseen]
    exact hretry.unseen
  · rw [hlast]
    exact hretry.inOrder

/-- A call that raises records no decision about the entry that it fails on, and leaves the decisions
that it has committed before. When its own decision is the one, a retry with a working audit log decides
as a first call does: to the same manager if the observation has not reached the gates, and up to a
second record of it if it has and is not contradicted. -/
theorem evaluate_of_failed_commit [PyReal.Text φ] {c : Call φ} {e : AuditError}
    (h : evaluate cfg m c = (m', .error e)) :
    FailedCommit cfg m c e m' ∧
      ∀ retry : Call φ, retry.obs = c.obs → retry.Works →
        (¬ Applies m c → AlikeOutcome (evaluate cfg m retry) (evaluate cfg m' retry)) ∧
        (Applies m c →
          (applyObservation cfg m c.obs c.oldStatus (dedupKey c.obs) c.env).2 = .error e →
          ¬ Contradicted m.equivocationLog c.obs → RetriesOwn cfg m m' retry) := by
  have hfailed := failedCommit_of_evaluate h
  refine ⟨hfailed, fun retry hobs hworks => ⟨fun hnot => ?_, fun happlies hraises hfresh => ?_⟩⟩
  · cases hfailed with
    | refused _ hkept => exact evaluate_alike cfg hkept hworks
    | own happlies _ _ => exact absurd happlies hnot
    | flush happlies _ _ => exact absurd happlies hnot
  · cases hfailed with
    | refused hnot _ => exact absurd happlies hnot
    | own _ _ hkept =>
        rw [Manager.refuse, if_neg hfresh] at hkept
        have hrecord : m'.equivocationLog = m.equivocationLog.record c.obs := by rw [hkept.others]
        have hupTo : AlikeUpToRecord m m' := ⟨by rw [hrecord]; exact hkept.others, hkept.entries⟩
        refine retriesOwn_of_record hupTo happlies hobs hworks hfresh ?_
        rw [hrecord]
        exact not_contradicted_record hfresh
    | flush _ happly _ =>
        rw [happly] at hraises
        cases hraises

end Failures

/-! ## Samples -/

attribute [local instance] wholeText

/-- A call whose own decision cannot be recorded. -/
def sampleClosed : Call ℚ := { sampleCall 1 1 with env := closedEnv }

theorem applies_sample (m : Manager ℚ) (h : m.Fresh) (c : Call ℚ)
    (hobs : c.obs = sampleObservation 1 1) : Applies m c := by
  refine ⟨?_, ?_, by rw [hobs]; exact fresh_sample _ _ _⟩
  · rw [h.seenObservations]
    exact nofun
  · rw [h.lastAppliedKey]
    rfl

theorem fresh_sampleOn (sink : Sink) : (sampleOn sink).Fresh := ⟨rfl, rfl, rfl⟩

theorem evaluate_sampleClosed : ∃ m' e,
    applyObservation sampleConfig (sampleOn (.path none)) sampleClosed.obs sampleClosed.oldStatus
        (dedupKey sampleClosed.obs) sampleClosed.env = (m', .error e) ∧
      evaluate sampleConfig (sampleOn (.path none)) sampleClosed = (m', .error e) := by
  generalize hm : sampleOn (.path none) = m
  have happlies : Applies m sampleClosed :=
    applies_sample m (by rw [← hm]; exact fresh_sampleOn _) sampleClosed rfl
  have hdisk : m.auditLog.OnDisk := ⟨none, by rw [← hm]; rfl⟩
  have happend : ∀ args, ∃ log e,
      m.auditLog.append sampleConfig.verifier args sampleClosed.env.append = (log, .error e) :=
    fun args => ⟨_, append_of_atOpen hdisk args sampleClosed.env.append rfl⟩
  obtain ⟨m', e, happly⟩ := applyObservation_raises sampleClosed.obs sampleClosed.oldStatus happend
  refine ⟨m', e, happly, ?_⟩
  unfold evaluate
  simp only [if_neg happlies.unseen, happlies.inOrder, if_neg happlies.fresh, happly]

theorem evaluate_of_failed_commit_sample : ∃ m' e,
    evaluate sampleConfig (sampleOn (.path none)) sampleClosed = (m', .error e) ∧
      FailedCommit sampleConfig (sampleOn (.path none)) sampleClosed e m' ∧
      RetriesOwn sampleConfig (sampleOn (.path none)) m' (sampleCall 1 1) := by
  obtain ⟨m', e, happly, heval⟩ := evaluate_sampleClosed
  obtain ⟨hfailed, hretry⟩ := evaluate_of_failed_commit heval
  have hfresh : ¬ Contradicted sampleManager.equivocationLog sampleClosed.obs := by decide
  exact ⟨m', e, heval, hfailed, (hretry (sampleCall 1 1) rfl ⟨rfl, fun _ => rfl⟩).2
    (applies_sample _ (fresh_sampleOn _) _ rfl) (congrArg Prod.snd happly) hfresh⟩

/-- A failed commit leaves the record of its observation, and a flush that raises the watermark of the
observation committed before it. -/
theorem not_traceless_failed_commit :
    (∃ m' e, evaluate sampleConfig (sampleOn (.path none)) sampleClosed = (m', .error e) ∧
      m'.equivocationLog ≠ (sampleOn (.path none)).equivocationLog) ∧
    ∃ m m' e, evaluate sampleConfig m (sampleFlush 1 2) = (m', .error e) ∧
      m'.lastAppliedKey ≠ m.lastAppliedKey := by
  constructor
  · obtain ⟨m', e, happly, heval⟩ := evaluate_sampleClosed
    refine ⟨m', e, heval, fun hsame => ?_⟩
    have hrecord : m'.equivocationLog =
        sampleManager.equivocationLog.record (sampleObservation 1 1) := by
      rw [(alike_of_applyObservation happly).others]
      rfl
    rw [hrecord] at hsame
    have hlength := congrArg (fun log => (EquivocationLog.bucket log ("peer", 1)).length) hsame
    exact absurd hlength (by decide)
  · obtain ⟨log, r, hchain, hdisk, -⟩ := evaluate_sample_first (.path none)
    obtain ⟨m', e, entry, es, hflush, -, hlast⟩ := evaluate_sampleFlush hchain (hdisk ⟨_, rfl⟩)
    refine ⟨_, m', e, hflush, fun hsame => ?_⟩
    rw [hsame] at hlast
    have hwatermark : some ((1, 1) : Key) = some (1, 2) := hlast
    exact absurd hwatermark (by decide)

end Perpetua.Transition

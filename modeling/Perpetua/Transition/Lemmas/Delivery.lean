import Perpetua.Audit.Lemmas.Chain
import Perpetua.Lib.JsonRoundTrip
import Perpetua.Transition.Lemmas.Effects
import Perpetua.Transition.Lemmas.Rounds

/-!
# Deliveries that go through

A call whose observation comes next and passes commits it; a call whose observation is early holds it
back. When nothing fails, the flush drains the buffer up to the first gap.
-/

namespace Perpetua.Transition

open Perpetua.Membership Audit

variable {φ : Type} [PyReal φ] {cfg : Config φ} {m : Manager φ}

/-! ## Deduplication keys -/

/-- A number ends at the colon after it. -/
theorem intText_append_inj {a b : ℤ} {s t : List Char}
    (h : Json.intText a ++ ':' :: s = Json.intText b ++ ':' :: t) : a = b ∧ s = t := by
  have hend : ∀ u : List Char, Json.NumberEnd (':' :: u) := fun u => by simp [Json.NumberEnd]
  have ha := Json.scanNumber_int a (hend s)
  rw [h, Json.scanNumber_int b (hend t), Option.some.injEq, Prod.mk.injEq, Json.Number.int.injEq,
    List.cons.injEq] at ha
  exact ⟨ha.1.symm, ha.2.2.symm⟩

theorem toList_dedupKey (o : PeerObservation φ) :
    (dedupKey o).toList = o.peerId.toList ++ (':' :: (Json.intText o.epoch ++
      (':' :: (Json.intText o.sequence ++ (':' :: o.observerId.toList))))) := by
  simp [dedupKey, intString, String.toList_append]

theorem dedupKey_inj {o o' : PeerObservation φ} (hpeer : o.peerId = o'.peerId)
    (h : dedupKey o = dedupKey o') : orderKey o = orderKey o' ∧ o.observerId = o'.observerId := by
  have hlist := congrArg String.toList h
  rw [toList_dedupKey, toList_dedupKey, hpeer, List.append_cancel_left_eq, List.cons.injEq] at hlist
  obtain ⟨hepoch, hrest⟩ := intText_append_inj hlist.2
  obtain ⟨hsequence, hobserver⟩ := intText_append_inj hrest
  exact ⟨Prod.ext hepoch hsequence, String.toList_injective hobserver⟩

/-! ## The audit log -/

/-- The chain of the audit log is verified, and what is signed is accepted. -/
structure AuditWorks (cfg : Config φ) (m : Manager φ) : Prop where
  chain : verifyFrom cfg.verifier 0 "" m.auditLog.entries
  signs : ∀ sign ∈ cfg.signer, ∀ bytes, ∃ signature, sign bytes = some signature ∧
    ∀ verify ∈ cfg.verifier, signature = "" ∨ verify bytes (.str signature)

theorem AuditWorks.nextEntry (h : AuditWorks cfg m) (args : AppendArgs)
    (hargs : args.signer = cfg.signer) (now : Json.Number) :
    ∃ entry, m.auditLog.nextEntry args now = some entry := by
  unfold AuditLog.nextEntry
  rw [hargs]
  cases hsign : cfg.signer with
  | none => exact ⟨_, rfl⟩
  | some sign =>
      obtain ⟨signature, hsignature, -⟩ := h.signs sign hsign (Record.entry
        { sequenceNumber := m.auditLog.entries.length, timestamp := args.timestamp.getD now
          peerId := args.peerId, oldStatus := args.oldStatus, newStatus := args.newStatus
          witnesses := args.witnesses
          previousHash := (m.auditLog.entries.getLast?.map (·.hash)).getD ""
          signature := "" }).contentBytes
      simp only [hsignature]
      exact ⟨_, rfl⟩

/-- What passes is recorded in the audit log, whose chain stays verified. -/
theorem AuditWorks.approve (h : AuditWorks cfg m) (o : PeerObservation φ) (oldStatus : String)
    (env : StageEnv φ) (hfault : env.append.fault = none) :
    ∃ log entry, approve cfg m o oldStatus env = (log, .ok entry) ∧
      verifyFrom cfg.verifier 0 "" log.entries := by
  obtain ⟨entry, hnext⟩ := h.nextEntry (approval cfg m o oldStatus) rfl env.append.now
  obtain ⟨sink, happend⟩ := append_ok h.chain hnext hfault
  refine ⟨_, entry, happend, verifyFrom_next h.chain ?_ hnext⟩
  intro verify hverify sign hsign bytes signature hsignature
  obtain ⟨signature', hsignature', hok⟩ := h.signs sign hsign bytes
  rw [Option.some.inj (hsignature.symm.trans hsignature')]
  exact hok verify hverify

theorem onDisk_of_approve {o : PeerObservation φ} {oldStatus : String} {env : StageEnv φ}
    {log : AuditLog} {added : Except AuditError AuditEntry} (h : m.auditLog.OnDisk)
    (happrove : approve cfg m o oldStatus env = (log, added)) : log.OnDisk := by
  have hlog := h.append cfg.verifier (approval cfg m o oldStatus) env.append
  rw [approve] at happrove
  rwa [happrove] at hlog

/-! ## Committing and holding back -/

section Calls

variable {o : PeerObservation φ} {oldStatus : String} {env : StageEnv φ} {log : AuditLog}
  {entry : AuditEntry}

theorem applyObservation_of_passes (h : Passes cfg m o)
    (happrove : approve cfg m o oldStatus env = (log, .ok entry)) :
    ∃ r, r.accepted = true ∧ r.findings.weightedQuorum = some (weighted cfg m.reputation o) ∧
      applyObservation cfg m o oldStatus (dedupKey o) env = (m.commit cfg o log, .ok r) := by
  have hcase := applyObservation_cases cfg m o oldStatus env
  generalize applyObservation cfg m o oldStatus (dedupKey o) env = out at hcase ⊢
  cases hcase with
  | committed _ happrove' hresult =>
      obtain rfl := congrArg Prod.fst (happrove'.symm.trans happrove)
      exact ⟨_, hresult.accepted, hresult.weightedQuorum, rfl⟩
  | failed _ happrove' => cases happrove'.symm.trans happrove
  | refused hfails _ => exact absurd h hfails

variable [PyReal.Text φ] {c : Call φ}

/-- A call that commits, and what it flushes. -/
theorem evaluate_of_commits (happlies : Applies m c) (hpasses : Passes cfg m c.obs)
    (happrove : approve cfg m c.obs c.oldStatus c.env = (log, .ok entry)) :
    ∃ r, r.accepted = true ∧
      r.findings.weightedQuorum = some (weighted cfg m.reputation c.obs) ∧ evaluate cfg m c =
      ((flushReorderBuffer cfg c.obs.peerId c.flushEnv (m.commit cfg c.obs log)).1,
        (flushReorderBuffer cfg c.obs.peerId c.flushEnv (m.commit cfg c.obs log)).2.map
          fun flushed => { result := r, flushed }) := by
  obtain ⟨r, hr, hweighted, happly⟩ := applyObservation_of_passes hpasses happrove
  refine ⟨r, hr, hweighted, ?_⟩
  unfold evaluate
  simp only [if_neg happlies.unseen, happlies.inOrder, if_neg happlies.fresh, happly]

/-- A call that holds its observation back. -/
theorem evaluate_of_holds (h : Holds cfg m c) (hunseen : dedupKey c.obs ∉ m.seenObservations.keys)
    (hfresh : ¬ c.obs.isStale c.env.now) :
    ∃ r, r.accepted = false ∧ evaluate cfg m c = (m.hold cfg c, .ok { result := r }) := by
  unfold evaluate bufferObservation
  simp only [if_neg hunseen, h.ahead, if_neg hfresh, h.free, if_neg (Nat.not_le.mpr h.room)]
  exact ⟨_, rfl, rfl⟩

end Calls

theorem flush_of_empty {peerId : String} (h : (m.buffer peerId).size = 0)
    (envs : ℕ → StageEnv φ) : flushReorderBuffer cfg peerId envs m = (m, .ok []) := by
  unfold flushReorderBuffer
  simp only [if_pos h]

/-! ## Appends that raise -/

/-- Applying raises when every append does. -/
theorem applyObservation_raises (o : PeerObservation φ) (oldStatus : String) {env : StageEnv φ}
    (h : ∀ args, ∃ log e, m.auditLog.append cfg.verifier args env.append = (log, .error e)) :
    ∃ m' e, applyObservation cfg m o oldStatus (dedupKey o) env = (m', .error e) := by
  have hcase := applyObservation_cases cfg m o oldStatus env
  generalize applyObservation cfg m o oldStatus (dedupKey o) env = out at hcase ⊢
  cases hcase with
  | committed _ happrove _ =>
      obtain ⟨log, e, happend⟩ := h (approval cfg m o oldStatus)
      cases happrove.symm.trans happend
  | failed _ _ => exact ⟨_, _, rfl⟩
  | @refused reason findings _ _ =>
      obtain ⟨log, e, happend⟩ := h (rejection cfg o (refusal m o) oldStatus)
      exact ⟨_, e, Prod.ext rfl (by rw [reject_snd, Manager.refuse, happend]; rfl)⟩

/-- The flush raises with the first entry that it applies, and no watermark moves. -/
theorem flush_raises {peerId : String} {last : Key} {entry : Waiting φ} {envs : ℕ → StageEnv φ}
    (hnext : NextUp m peerId last entry) (hfresh : ¬ entry.1.isStale (envs 0).now)
    (hunseen : dedupKey entry.1 ∉ m.seenObservations.keys)
    (h : ∀ args, ∃ log e, m.auditLog.append cfg.verifier args (envs 0).append = (log, .error e)) :
    ∃ m' e, flushReorderBuffer cfg peerId envs m = (m', .error e) ∧
      m'.lastAppliedKey = m.lastAppliedKey := by
  obtain ⟨o, oldStatus⟩ := entry
  obtain ⟨m', e, happly⟩ := applyObservation_raises (m := m.pop peerId last.next) o oldStatus h
  have hcase := applyObservation_cases cfg (m.pop peerId last.next) o oldStatus (envs 0)
  rw [happly] at hcase
  have hlast : m'.lastAppliedKey = m.lastAppliedKey := by
    rcases hcase.lastAppliedKey with hlast | ⟨-, r, hr⟩
    · exact hlast
    · cases hr
  have hsize : (m.buffer peerId).size ≠ 0 := fun h0 => by
    have hentry := hnext.entry
    rw [get?_of_size_eq_zero h0] at hentry
    cases hentry
  obtain ⟨rounds, hrounds⟩ := Nat.exists_eq_succ_of_ne_zero hsize
  have hround : flushRound cfg peerId (envs 0) m =
      .stop (m'.restore peerId last.next (o, oldStatus), .error e) := by
    have hunseen' : dedupKey o ∉ (m.pop peerId last.next).seenObservations.keys := hunseen
    rw [Manager.pop] at happly hunseen'
    unfold flushRound
    simp only [hnext.watermark, hnext.entry, if_neg hfresh, if_neg hunseen', happly]
  unfold flushReorderBuffer
  simp only [hrounds, flushLoop, hround]
  exact ⟨_, _, rfl, hlast⟩

end Perpetua.Transition

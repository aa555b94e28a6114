import Perpetua.Transition.Lemmas.Decisions
import Perpetua.Transition.Theorems

/-!
# Theorems about decisions

What the audit log says about the decisions of the calls, and who carries what they accept.
-/

namespace Perpetua.Transition

open Perpetua.Membership Audit

variable {φ : Type} [PyReal φ] {cfg : Config φ} {m : Manager φ}

/-! ## The audit log of a run -/

section Runs

variable [PyReal.Text φ]

/-- The decisions that the calls of a run return. -/
def returnedDecisions (cfg : Config φ) (m : Manager φ) (calls : List (Call φ)) : List (Decided φ) :=
  Machine.outputs (step cfg) (fun m c => decisions c (evaluate cfg m c).2) m calls

/-- A call that raises has appended nothing before. -/
def RaisesClean (cfg : Config φ) (m : Manager φ) (c : Call φ) : Prop :=
  ∀ e, (evaluate cfg m c).2 = .error e →
    (step cfg m c).auditLog.entries = m.auditLog.entries

/-- The decisions of a call that returns, with their entries. -/
theorem decides_of_returns {c : Call φ} {e : Evaluation φ} (h : (evaluate cfg m c).2 = .ok e) :
    Decides cfg m (decisions c (.ok e)) (step cfg m c) := by
  obtain ⟨ds, hdecides, hds⟩ := settles_evaluate cfg m c
  have hds' := hds (decisions c (.ok e)) (by rw [h]; rfl)
  rw [hds']
  exact hdecides

theorem entries_of_raisesClean {c : Call φ} (h : RaisesClean cfg m c) :
    (step cfg m c).auditLog.entries =
      m.auditLog.entries ++ entriesOf (decisions c (evaluate cfg m c).2) := by
  cases hresult : (evaluate cfg m c).2 with
  | ok e => exact (decides_of_returns hresult).entries
  | error e => rw [h e hresult]; exact (List.append_nil _).symm

theorem entries_run {calls : List (Call φ)}
    (h : Machine.Along (step cfg) (RaisesClean cfg) m calls) :
    (runCalls cfg m calls).auditLog.entries =
      m.auditLog.entries ++ entriesOf (returnedDecisions cfg m calls) := by
  induction calls generalizing m with
  | nil => exact (List.append_nil _).symm
  | cons c calls ih =>
      have hrest := ih h.2
      rw [runCalls] at hrest
      rw [runCalls, Machine.run_cons, hrest, entries_of_raisesClean h.1, List.append_assoc,
        returnedDecisions, returnedDecisions, Machine.outputs, entriesOf, entriesOf, entriesOf,
        List.filterMap_append]

/-- The chain stays verified, whether calls return or raise. -/
theorem verifyFrom_run (htrusted : SignerTrusted cfg)
    (h : verifyFrom cfg.verifier 0 "" m.auditLog.entries) (calls : List (Call φ)) :
    verifyFrom cfg.verifier 0 "" (runCalls cfg m calls).auditLog.entries := by
  refine Machine.run_invariant (I := fun m : Manager φ => verifyFrom cfg.verifier 0 "" m.auditLog.entries)
    (fun m c hchain => ?_) h calls
  obtain ⟨ds, hdecides, -⟩ := settles_evaluate cfg m c
  exact hdecides.chain htrusted hchain

/-- The audit log grows by the entries of the decisions of a call, the outer one first; along a run
whose raising calls have appended nothing it is their concatenation, and its chain stays verified. -/
theorem audit_complete (cfg : Config φ) (m : Manager φ) (calls : List (Call φ)) :
    (∀ c e, (evaluate cfg m c).2 = .ok e →
      (step cfg m c).auditLog.entries =
        m.auditLog.entries ++ entriesOf ((c.obs, e.result) :: e.flushed) ∧
      ∀ d ∈ (c.obs, e.result) :: e.flushed, Answered d) ∧
    (Machine.Along (step cfg) (RaisesClean cfg) m calls →
      (runCalls cfg m calls).auditLog.entries =
        m.auditLog.entries ++ entriesOf (returnedDecisions cfg m calls)) ∧
    (SignerTrusted cfg → verifyFrom cfg.verifier 0 "" m.auditLog.entries →
      ∀ pre post, calls = pre ++ post →
        verifyChain cfg.verifier (runCalls cfg m pre).auditLog.entries = .ok ()) := by
  refine ⟨fun c e h => ?_, entries_run, fun htrusted hchain pre post _ => ?_⟩
  · have hdecides := decides_of_returns h
    exact ⟨hdecides.entries, hdecides.answered⟩
  · rw [verifyChain, if_pos (verifyFrom_run htrusted hchain pre)]

end Runs

/-! ## Who carries an observation -/

section Quorum

variable [PyReal.Text φ]

variable [PyReal.Voting φ]

/-- Whatever a call accepts has passed the gates under the weights that the decision shows. Under
these weights two independent trusted witnesses carry it if and only if no observer and no bucket
that has all the witnesses of positive weight reaches the threshold. -/
theorem trustedPair_of_accepted_iff {c : Call φ} {e : Evaluation φ} {d : Decided φ}
    (h : (evaluate cfg m c).2 = .ok e) (hd : d ∈ (c.obs, e.result) :: e.flushed)
    (haccepted : d.2.accepted) :
    ∃ reputation, d.2.findings.weightedQuorum = some (weighted cfg reputation d.1) ∧
      Quorate cfg d.1.witnessSet ∧ (weighted cfg reputation d.1).passes ∧
      (TrustedPair cfg reputation d.1 ↔ OutOfReach cfg reputation d.1) := by
  obtain ⟨m', hpasses, hweighted⟩ := (decides_of_returns h).weighed d hd haccepted
  exact ⟨m'.reputation, hweighted, (checkQuorum_iff d.1).mp hpasses.quorum, hpasses.weight,
    trustedPair_iff_of_passes hpasses.weight⟩

end Quorum

attribute [local instance] wholeText

/-- One witness has been right a lot and the other wrong once. -/
def unevenReputation : ReputationLedger ℚ :=
  ((⟨1, .empty⟩ : ReputationLedger ℚ).recordOutcome "first" true 25).recordOutcome "second" false 1

def unevenManager : Manager ℚ := { sampleManager with reputation := unevenReputation }

theorem weight_uneven_second : unevenReputation.reputationWeight "second" = 0 := by
  decide +kernel

theorem passes_uneven : Passes sampleConfig unevenManager (sampleObservation 1 1) where
  consistent := by
    change ¬ Contradicted sampleManager.equivocationLog _
    decide
  quorum := rfl
  weight := by
    change (weighted sampleConfig unevenReputation (sampleObservation 1 1)).passes
    decide +kernel

/-- An observation that passes is accepted by a manager whose caches are empty. -/
theorem evaluate_accepts {m : Manager ℚ} (happlies : Applies m (sampleCall 1 1))
    (hpasses : Passes sampleConfig m (sampleObservation 1 1))
    (hchain : verifyFrom none 0 "" m.auditLog.entries) (hbuffer : m.reorderBuffer = .empty) :
    ∃ r, r.accepted = true ∧ r.findings.weightedQuorum =
        some (weighted sampleConfig m.reputation (sampleObservation 1 1)) ∧
      (evaluate sampleConfig m (sampleCall 1 1)).2 = .ok { result := r } := by
  have hworks : AuditWorks sampleConfig m := auditWorks_sample hchain
  obtain ⟨log, entry, happrove, -⟩ :=
    hworks.approve (sampleObservation 1 1) "UNKNOWN" sampleEnv rfl
  obtain ⟨r, haccepted, hweighted, heval⟩ := evaluate_of_commits happlies hpasses happrove
  refine ⟨r, haccepted, hweighted, ?_⟩
  have hempty : ((m.commit sampleConfig (sampleObservation 1 1) log).buffer
      (sampleObservation 1 1).peerId).size = 0 := by
    change (((m.reorderBuffer.get? _).getD .empty) : Buffer ℚ).size = 0
    rw [hbuffer]
    rfl
  rw [heval]
  change (flushReorderBuffer sampleConfig (sampleObservation 1 1).peerId _
    (m.commit sampleConfig (sampleObservation 1 1) log)).2.map _ = _
  rw [flush_of_empty hempty]
  rfl

/-- With a weight of 1 each, neither of the two witnesses reaches the threshold of 2. -/
theorem outOfReach_sample {reputation : ReputationLedger ℚ}
    (h : weighted sampleConfig reputation (sampleObservation 1 1) =
      weighted sampleConfig sampleManager.reputation (sampleObservation 1 1)) :
    OutOfReach sampleConfig reputation (sampleObservation 1 1) := by
  have hweights := congrArg WeightedQuorum.weightedByObserver h
  have hfirst : some (reputation.reputationWeight "first") = some 1 :=
    congrArg (OrderedDict.get? · "first") hweights
  have hsecond : some (reputation.reputationWeight "second") = some 1 :=
    congrArg (OrderedDict.get? · "second") hweights
  have hpos : ∀ w ∈ (sampleObservation 1 1).witnessSet,
      ((0 : ℤ) : ℚ) < reputation.reputationWeight w.observerId := by
    intro w hw
    rcases List.mem_pair.mp hw with rfl | rfl
    · exact (Option.some.inj hfirst).symm ▸ one_pos
    · exact (Option.some.inj hsecond).symm ▸ one_pos
  have hv : sampleWitness "first" "a" ∈ (sampleObservation 1 1).witnessSet := List.mem_cons_self
  have hw : sampleWitness "second" "b" ∈ (sampleObservation 1 1).witnessSet :=
    List.mem_cons_of_mem _ List.mem_cons_self
  exact ⟨fun observerId hall => absurd ((hall _ hv (hpos _ hv)).trans (hall _ hw (hpos _ hw)).symm)
      (by decide),
    fun bucket hall => absurd ((hall _ hv (hpos _ hv)).trans (hall _ hw (hpos _ hw)).symm)
      (by decide)⟩

theorem trustedPair_of_accepted_sample : ∃ r,
    (evaluate sampleConfig sampleManager (sampleCall 1 1)).2 = .ok { result := r } ∧
    ∃ reputation, r.findings.weightedQuorum =
        some (weighted sampleConfig reputation (sampleObservation 1 1)) ∧
      TrustedPair sampleConfig reputation (sampleObservation 1 1) := by
  obtain ⟨r, haccepted, hshown, heval⟩ := evaluate_accepts (m := sampleManager)
    ⟨nofun, rfl, fresh_sample _ _ _⟩ (passes_sample rfl (by decide)) rfl rfl
  obtain ⟨reputation, hweighted, -, -, hiff⟩ :=
    trustedPair_of_accepted_iff heval List.mem_cons_self haccepted
  have hsame := Option.some.inj (hweighted.symm.trans hshown)
  exact ⟨r, heval, reputation, hweighted, hiff.mpr (outOfReach_sample hsame)⟩

/-- One observer carries an observation alone, next to a witness of no weight. -/
theorem not_trustedPair_heavyWitness : ∃ e,
    (evaluate sampleConfig unevenManager (sampleCall 1 1)).2 = .ok e ∧ e.result.accepted ∧
      ¬ TrustedPair sampleConfig unevenManager.reputation (sampleObservation 1 1) := by
  obtain ⟨r, haccepted, -, heval⟩ := evaluate_accepts (m := unevenManager)
    ⟨nofun, rfl, fresh_sample _ _ _⟩ passes_uneven rfl rfl
  refine ⟨_, heval, haccepted, ?_⟩
  rintro ⟨v, hv, w, hw, hne, -, hvpos, hwpos⟩
  have hfirst : ∀ x ∈ (sampleObservation 1 1).witnessSet,
      ((0 : ℤ) : ℚ) < unevenReputation.reputationWeight x.observerId → x.observerId = "first" := by
    intro x hx hpos
    rcases List.mem_pair.mp hx with rfl | rfl
    · rfl
    · change ((0 : ℤ) : ℚ) < unevenReputation.reputationWeight "second" at hpos
      rw [weight_uneven_second] at hpos
      exact absurd hpos (lt_irrefl _)
  exact hne ((hfirst v hv hvpos).trans (hfirst w hw hwpos).symm)

/-! ## A flush that raises -/

/-- The file cannot be opened. -/
def closedEnv : StageEnv ℚ :=
  { now := 0, detectedAt := 0, append := { now := .int 0, fault := some .atOpen } }

/-- A call whose flush cannot be recorded. -/
def sampleFlush (epoch sequence : ℤ) : Call ℚ := sampleCallIn (fun _ => closedEnv) epoch sequence

/-- The manager after the calls, with the third one committed. -/
def sampleFilled (log log' : AuditLog) : Manager ℚ :=
  ((sampleCommitted log).hold sampleConfig (sampleCall 1 3)).commit sampleConfig
    (sampleObservation 1 2) log'

theorem flush_sampleFilled (log : AuditLog) {log' : AuditLog} (hdisk : log'.OnDisk) :
    ∃ m' e, flushReorderBuffer sampleConfig (sampleObservation 1 2).peerId (fun _ => closedEnv)
      (sampleFilled log log') = (m', .error e) ∧
      m'.lastAppliedKey = (sampleFilled log log').lastAppliedKey := by
  have hnext : NextUp (sampleFilled log log') (sampleObservation 1 2).peerId (1, 2)
      (sampleObservation 1 3, "UNKNOWN") := ⟨rfl, rfl⟩
  refine flush_raises hnext (fresh_sample _ _ _) ?_ fun args => ?_
  · intro hmem
    rcases OrderedDict.mem_keys_touch hmem with hkey | hmem
    · have hpeer : (sampleObservation 1 3).peerId = (sampleObservation 1 2).peerId := rfl
      have hinj := (dedupKey_inj hpeer hkey).1
      exact absurd hinj (by decide)
    · exact unseen_sampleCommitted log (by decide) hmem
  · obtain ⟨e, happend⟩ := append_of_atOpen hdisk args closedEnv.append rfl
    exact ⟨_, e, happend⟩

/-- The call commits its observation, and raises in the flush. -/
theorem evaluate_sampleFlush {log : AuditLog} (hchain : verifyFrom none 0 "" log.entries)
    (hdisk : log.OnDisk) : ∃ m' e entry es,
    evaluate sampleConfig ((sampleCommitted log).hold sampleConfig (sampleCall 1 3))
      (sampleFlush 1 2) = (m', .error e) ∧ m'.auditLog.entries = log.entries ++ entry :: es ∧
    m'.lastAppliedKey.get? "peer" = some (1, 2) := by
  obtain ⟨happlies, hpasses, log', entry, happrove⟩ :=
    commits_sample hchain 1 2 (by decide) rfl (by decide) fun _ => closedEnv
  obtain ⟨r, -, -, heval⟩ := evaluate_of_commits happlies hpasses happrove
  have hheld : ((sampleCommitted log).hold sampleConfig (sampleCall 1 3)).auditLog.OnDisk := hdisk
  have hdisk' : log'.OnDisk := onDisk_of_approve hheld happrove
  obtain ⟨m', e, hflush, hlast⟩ := flush_sampleFilled log hdisk'
  have hentries : log'.entries = log.entries ++ [entry] := (entries_of_append_ok happrove).1
  obtain ⟨ds, hdecides, -⟩ := settles_flush sampleConfig (sampleObservation 1 2).peerId
    (fun _ => closedEnv) (sampleFilled log log')
  have hgrown := hdecides.entries
  rw [hflush] at hgrown
  refine ⟨m', e, entry, entriesOf ds, ?_, ?_, by rw [hlast]; rfl⟩
  · rw [sampleFlush, heval]
    change ((flushReorderBuffer sampleConfig (sampleObservation 1 2).peerId (fun _ => closedEnv)
      (sampleFilled log log')).1, (flushReorderBuffer sampleConfig (sampleObservation 1 2).peerId
      (fun _ => closedEnv) (sampleFilled log log')).2.map _) = _
    rw [hflush]
    rfl
  · have hfilled : (sampleFilled log log').auditLog = log' := rfl
    rw [hgrown, hfilled, hentries, List.append_assoc, List.singleton_append]

theorem raisesClean_held : Machine.Along (step sampleConfig) (RaisesClean sampleConfig)
    (sampleOn (.path none)) [sampleCall 1 1, sampleCall 1 3] := by
  obtain ⟨log, r, -, -, hfirst⟩ := evaluate_sample_first (.path none)
  obtain ⟨r', hheld⟩ := evaluate_sample_held log
  refine ⟨fun e he => ?_, fun e he => ?_, trivial⟩
  · rw [hfirst] at he; cases he
  · rw [step, hfirst, hheld] at he; cases he

theorem audit_complete_held :
    (runCalls sampleConfig (sampleOn (.path none))
      [sampleCall 1 1, sampleCall 1 3]).auditLog.entries =
      (sampleOn (.path none)).auditLog.entries ++ entriesOf (returnedDecisions sampleConfig
        (sampleOn (.path none)) [sampleCall 1 1, sampleCall 1 3]) ∧
    verifyChain none (runCalls sampleConfig (sampleOn (.path none))
      [sampleCall 1 1, sampleCall 1 3]).auditLog.entries = .ok () := by
  obtain ⟨-, hrun, hverify⟩ := audit_complete sampleConfig (sampleOn (.path none))
    [sampleCall 1 1, sampleCall 1 3]
  exact ⟨hrun raisesClean_held, hverify nofun rfl _ [] (List.append_nil _).symm⟩

/-- When a flush raises, the entry of the observation before it is in the audit log and its decision
is not returned. -/
theorem entries_raisingFlush :
    (runCalls sampleConfig (sampleOn (.path none))
      [sampleCall 1 1, sampleCall 1 3, sampleFlush 1 2]).auditLog.entries ≠
    (sampleOn (.path none)).auditLog.entries ++
      entriesOf (returnedDecisions sampleConfig (sampleOn (.path none))
        [sampleCall 1 1, sampleCall 1 3, sampleFlush 1 2]) := by
  obtain ⟨log, r, hchain, hdisk, hfirst⟩ := evaluate_sample_first (.path none)
  obtain ⟨r', hheld⟩ := evaluate_sample_held log
  obtain ⟨m', e, entry, es, hflush, hentries, -⟩ := evaluate_sampleFlush hchain (hdisk ⟨_, rfl⟩)
  have hprefix := entries_run raisesClean_held
  have hrun : runCalls sampleConfig (sampleOn (.path none)) [sampleCall 1 1, sampleCall 1 3] =
      (sampleCommitted log).hold sampleConfig (sampleCall 1 3) := by
    rw [runCalls, Machine.run_cons, Machine.run_cons, Machine.run_nil, step, step, hfirst, hheld]
  have hlog : log.entries = (sampleOn (.path none)).auditLog.entries ++ entriesOf
      (returnedDecisions sampleConfig (sampleOn (.path none)) [sampleCall 1 1, sampleCall 1 3]) := by
    rw [← hprefix, hrun]
    rfl
  have hsplit : [sampleCall 1 1, sampleCall 1 3, sampleFlush 1 2] =
      [sampleCall 1 1, sampleCall 1 3] ++ [sampleFlush 1 2] := rfl
  have hlast : Machine.outputs (step sampleConfig)
      (fun m c => decisions c (evaluate sampleConfig m c).2)
      ((sampleCommitted log).hold sampleConfig (sampleCall 1 3)) [sampleFlush 1 2] = [] := by
    rw [Machine.outputs, Machine.outputs, hflush]
    rfl
  have hreturned : returnedDecisions sampleConfig (sampleOn (.path none))
      [sampleCall 1 1, sampleCall 1 3, sampleFlush 1 2] =
      returnedDecisions sampleConfig (sampleOn (.path none)) [sampleCall 1 1, sampleCall 1 3] := by
    rw [runCalls] at hrun
    rw [hsplit, returnedDecisions, Machine.outputs_append, hrun, hlast, List.append_nil,
      returnedDecisions]
  have hrun' : runCalls sampleConfig (sampleOn (.path none))
      [sampleCall 1 1, sampleCall 1 3, sampleFlush 1 2] = m' := by
    rw [runCalls] at hrun
    rw [hsplit, runCalls, Machine.run_append, hrun, Machine.run_cons, Machine.run_nil, step, hflush]
  rw [hreturned, hrun', hentries, ← hlog]
  intro h
  have hlength := congrArg List.length h
  rw [List.length_append, List.length_cons] at hlength
  omega

/-- A signer whose signatures the verifier of the log refuses. -/
def untrustedConfig : Config ℚ :=
  { sampleConfig with signer := some fun _ => some "forged", verifier := some fun _ _ => false }

/-- The sample manager over a log, with the observation of a sample call seen. -/
def sampleSeen (log : AuditLog) : Manager ℚ :=
  { sampleManager.markSeen sampleConfig (sampleObservation 1 1) with auditLog := log }

theorem step_sampleSeen (cfg : Config ℚ) (log : AuditLog) :
    (step cfg (sampleSeen log) (sampleCall 1 1)).auditLog =
      (log.append cfg.verifier (rejection cfg (sampleObservation 1 1) .duplicate "UNKNOWN")
        sampleEnv.append).1 := by
  have hmarked : dedupKey (sampleObservation 1 1) ∈
      (sampleManager.markSeen sampleConfig (sampleObservation 1 1)).seenObservations.keys := by
    decide +kernel
  have hseen : dedupKey (sampleCall 1 1).obs ∈ (sampleSeen log).seenObservations.keys := hmarked
  rw [step, evaluate, if_pos hseen]
  rfl

/-- The rejection of a duplicate is signed, and the chain that holds it is refused. -/
theorem unverified_untrusted :
    verifyChain untrustedConfig.verifier (step untrustedConfig (sampleSeen { sink := .memory })
      (sampleCall 1 1)).auditLog.entries = .error .chainIntegrity := by
  obtain ⟨r, hnext, hsignature⟩ : ∃ r : Record,
      ({ sink := .memory } : AuditLog).nextEntry
        (rejection untrustedConfig (sampleObservation 1 1) .duplicate "UNKNOWN")
        sampleEnv.append.now = some r.entry ∧ r.signature = "forged" := ⟨_, rfl, rfl⟩
  have hempty : verifyFrom untrustedConfig.verifier 0 ""
      ({ sink := .memory } : AuditLog).entries := rfl
  obtain ⟨sink, happend⟩ := append_ok hempty hnext rfl
  have hrefused : signatureOk untrustedConfig.verifier r.entry = false := by
    change (!(Json.Value.str r.signature).truthy || false) = false
    rw [hsignature]
    rfl
  have hchain : verifyFrom untrustedConfig.verifier 0 "" [r.entry] = false := by
    rw [verifyFrom, hrefused, Bool.and_false, Bool.false_and]
  rw [step_sampleSeen, happend, verifyChain, List.nil_append, hchain]
  rfl

/-- A chain that does not start at 0 stays as it is. -/
theorem unverified_broken {entry : AuditEntry} (h : entry.sequenceNumber = .num (.int 1)) :
    verifyChain none (step sampleConfig (sampleSeen { entries := [entry], sink := .memory })
      (sampleCall 1 1)).auditLog.entries = .error .chainIntegrity := by
  have hchain : verifyFrom none 0 "" [entry] = false := by
    rw [verifyFrom, h]
    rfl
  have hunverified : verifyChain none [entry] = .error .chainIntegrity := by
    rw [verifyChain, hchain]
    rfl
  rcases append_cases none { entries := [entry], sink := .memory }
    (rejection sampleConfig (sampleObservation 1 1) .duplicate "UNKNOWN") sampleEnv.append with
    ⟨sink, error, happend⟩ | ⟨sink, next, hverified, -, -⟩
  · rw [step_sampleSeen]
    change verifyChain none (AuditLog.append none _ _ _).1.entries = _
    rw [happend]
    exact hunverified
  · rw [hchain] at hverified
    cases hverified

def sampleLate : AuditEntry where
  sequenceNumber := .num (.int 1)
  timestamp := .null
  peerId := .null
  oldStatus := .null
  newStatus := .null
  witnesses := []
  previousHash := ""
  signature := .str ""
  hash := ""

/-- A raising flush, a signer that the log does not trust and a chain that is broken before the call
each break what the log holds after it. -/
theorem not_audit_complete :
    (runCalls sampleConfig (sampleOn (.path none))
      [sampleCall 1 1, sampleCall 1 3, sampleFlush 1 2]).auditLog.entries ≠
      (sampleOn (.path none)).auditLog.entries ++
        entriesOf (returnedDecisions sampleConfig (sampleOn (.path none))
          [sampleCall 1 1, sampleCall 1 3, sampleFlush 1 2]) ∧
    verifyChain untrustedConfig.verifier (step untrustedConfig (sampleSeen { sink := .memory })
      (sampleCall 1 1)).auditLog.entries ≠ .ok () ∧
    verifyChain none (step sampleConfig (sampleSeen { entries := [sampleLate], sink := .memory })
      (sampleCall 1 1)).auditLog.entries ≠ .ok () := by
  refine ⟨entries_raisingFlush, ?_, ?_⟩
  · rw [unverified_untrusted]
    exact fun h => by cases h
  · rw [unverified_broken rfl]
    exact fun h => by cases h

end Perpetua.Transition

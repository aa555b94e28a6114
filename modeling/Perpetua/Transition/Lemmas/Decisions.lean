import Perpetua.Audit.Lemmas.Chain
import Perpetua.Lib.Keyed
import Perpetua.Transition.Lemmas.Order

/-!
# Decisions and the audit log

Every part of a call appends the entries of its decisions in order, and accepts only what has passed
the gates.
-/

namespace Perpetua.Transition

open Perpetua.Membership Audit

variable {φ : Type} [PyReal φ] {cfg : Config φ} {m m' m'' : Manager φ}

/-! ## Decisions -/

/-- The verifier of the audit log accepts what the manager signs. -/
def SignerTrusted (cfg : Config φ) : Prop :=
  ∀ verify ∈ cfg.verifier, ∀ sign ∈ cfg.signer, ∀ bytes signature, sign bytes = some signature →
    signature = "" ∨ verify bytes (.str signature)

/-- A decision has an entry of its own, for the peer; one that waits has none. -/
inductive Answered (d : Decided φ) : Prop
  | buffered (hdecision : d.2.decisionType = .buffered) (hentry : d.2.auditEntry = none)
  | entered {entry : AuditEntry} (hdecision : d.2.decisionType ≠ .buffered)
      (hentry : d.2.auditEntry = some entry) (hpeer : entry.peerId = .str d.2.peerId)

/-- The observation has passed the gates of a manager, whose weights the decision shows. -/
def Weighed (cfg : Config φ) (d : Decided φ) : Prop :=
  ∃ m : Manager φ, Passes cfg m d.1 ∧
    d.2.findings.weightedQuorum = some (weighted cfg m.reputation d.1)

/-- The entries of decisions, in order. -/
def entriesOf (ds : List (Decided φ)) : List AuditEntry := ds.filterMap (·.2.auditEntry)

/-- From `m` to `m'` the decisions are taken. -/
structure Decides (cfg : Config φ) (m : Manager φ) (ds : List (Decided φ)) (m' : Manager φ) : Prop
    where
  entries : m'.auditLog.entries = m.auditLog.entries ++ entriesOf ds
  answered : ∀ d ∈ ds, Answered d
  weighed : ∀ d ∈ ds, d.2.accepted → Weighed cfg d
  chain : SignerTrusted cfg → verifyFrom cfg.verifier 0 "" m.auditLog.entries →
    verifyFrom cfg.verifier 0 "" m'.auditLog.entries

/-- Nothing is decided. -/
theorem Decides.silent (h : m'.auditLog.entries = m.auditLog.entries) : Decides cfg m [] m' where
  entries := by rw [h]; exact (List.append_nil _).symm
  answered := List.forall_mem_nil _
  weighed := List.forall_mem_nil _
  chain := fun _ hchain => by rwa [h]

theorem Decides.append {ds ds' : List (Decided φ)} (h : Decides cfg m ds m')
    (h' : Decides cfg m' ds' m'') : Decides cfg m (ds ++ ds') m'' where
  entries := by
    rw [h'.entries, h.entries, List.append_assoc, entriesOf, entriesOf, entriesOf,
      List.filterMap_append]
  answered := fun d hd => (List.mem_append.mp hd).elim (h.answered d) (h'.answered d)
  weighed := fun d hd => (List.mem_append.mp hd).elim (h.weighed d) (h'.weighed d)
  chain := fun htrusted hchain => h'.chain htrusted (h.chain htrusted hchain)

/-- Only the audit logs matter where decisions start and end. -/
theorem Decides.congr {m₁ m₁' : Manager φ} {ds : List (Decided φ)} (h : Decides cfg m₁ ds m₁')
    (hm : m.auditLog = m₁.auditLog) (hm' : m'.auditLog = m₁'.auditLog) : Decides cfg m ds m' where
  entries := by rw [hm, hm', h.entries]
  answered := h.answered
  weighed := h.weighed
  chain := by rw [hm, hm']; exact h.chain

/-- What an outcome decides; when it raises, some decisions may have been taken before. -/
def Settles (cfg : Config φ) (m : Manager φ) (outcome : Outcome φ (List (Decided φ))) : Prop :=
  ∃ ds, Decides cfg m ds outcome.1 ∧ ∀ ds', outcome.2 = .ok ds' → ds' = ds

theorem Settles.of_ok {ds : List (Decided φ)} (h : Decides cfg m ds m') :
    Settles cfg m (m', .ok ds) := ⟨ds, h, by rintro ds' ⟨⟩; rfl⟩

theorem Settles.of_error {ds : List (Decided φ)} {e : AuditError} (h : Decides cfg m ds m') :
    Settles cfg m (m', .error e) := ⟨ds, h, nofun⟩

theorem map_eq_ok {ε α β : Type*} {f : α → β} {x : Except ε α} {b : β} (h : x.map f = .ok b) :
    ∃ a, x = .ok a ∧ f a = b := by
  cases x with
  | error e => cases h
  | ok a => exact ⟨a, rfl, Except.ok.inj h⟩

/-! ## The parts of a call -/

section Parts

variable {o : PeerObservation φ} {oldStatus : String} {env : StageEnv φ}

theorem decides_append {args : AppendArgs} {log : AuditLog} {entry : AuditEntry}
    {r : StateTransitionResult φ} (hsigner : args.signer = cfg.signer)
    (happend : m.auditLog.append cfg.verifier args env.append = (log, .ok entry))
    (hlog : m'.auditLog = log) (hentry : r.auditEntry = some entry)
    (hdecision : r.decisionType ≠ .buffered) (hpeer : r.peerId = args.peerId)
    (hweighed : r.accepted → Weighed cfg (o, r)) : Decides cfg m [(o, r)] m' where
  entries := by
    rw [hlog, (entries_of_append_ok happend).1, entriesOf, List.filterMap_cons]
    simp only [hentry]
    rfl
  answered := fun d hd => by
    rw [List.mem_singleton.mp hd]
    exact .entered hdecision hentry (by rw [(entries_of_append_ok happend).2.1, hpeer])
  weighed := fun d hd => by
    rw [List.mem_singleton.mp hd]
    exact hweighed
  chain := fun htrusted _ => by
    rw [hlog]
    exact (entries_of_append_ok happend).2.2 (by rw [Trusted, hsigner]; exact htrusted)

theorem settles_reject {decision : DecisionType} {reason : Reason φ} {findings : Findings φ}
    (hdecision : decision ≠ .buffered) {outcome : Outcome φ (StateTransitionResult φ)}
    (houtcome : reject cfg m o decision reason oldStatus env findings = outcome) :
    Settles cfg m (outcome.1, outcome.2.map fun r => [(o, r)]) := by
  have hfst : outcome.1 = { m with auditLog :=
      (m.auditLog.append cfg.verifier (rejection cfg o decision oldStatus) env.append).1 } := by
    rw [← houtcome, reject_fst]
  obtain ⟨m', result⟩ := outcome
  obtain rfl := hfst
  cases happend : m.auditLog.append cfg.verifier (rejection cfg o decision oldStatus) env.append with
  | mk log added =>
      cases result with
      | error e =>
          refine Settles.of_error (Decides.silent ?_)
          have hsnd := congrArg Prod.snd houtcome
          rw [reject_snd, happend] at hsnd
          cases added with
          | error e' => exact entries_of_append_error happend
          | ok entry => cases hsnd
      | ok r =>
          obtain ⟨entry, hentry, hr⟩ := rejected_of_reject (congrArg Prod.snd houtcome)
          rw [happend] at hentry
          obtain rfl := hentry
          refine Settles.of_ok (decides_append rfl happend rfl hr.auditEntry ?_ hr.peerId ?_)
          · rw [hr.decisionType]; exact hdecision
          · rw [hr.accepted]; nofun

/-- What waits is not in the audit log. -/
theorem decides_heldBack {r : StateTransitionResult φ} (h : HeldBack r)
    (hlog : m'.auditLog = m.auditLog) : Decides cfg m [(o, r)] m' where
  entries := by
    rw [hlog, entriesOf, List.filterMap_cons]
    simp only [h.auditEntry]
    exact (List.append_nil _).symm
  answered := fun d hd => by
    rw [List.mem_singleton.mp hd]
    exact .buffered h.decisionType h.auditEntry
  weighed := fun d hd haccepted => by
    rw [List.mem_singleton.mp hd, h.accepted] at haccepted
    cases haccepted
  chain := fun _ hchain => by rwa [hlog]

theorem refusal_ne_buffered : refusal m o ≠ .buffered := by
  unfold refusal
  split
  · nofun
  · nofun

theorem settles_apply {outcome : Outcome φ (StateTransitionResult φ)}
    (houtcome : applyObservation cfg m o oldStatus (dedupKey o) env = outcome) :
    Settles cfg m (outcome.1, outcome.2.map fun r => [(o, r)]) := by
  have hcase := applyObservation_cases cfg m o oldStatus env
  rw [houtcome] at hcase
  cases hcase with
  | committed hpasses happrove hr =>
      refine Settles.of_ok (decides_append rfl happrove rfl hr.auditEntry hr.decisionType hr.peerId ?_)
      exact fun _ => ⟨m, hpasses, hr.weightedQuorum⟩
  | failed _ happrove =>
      exact Settles.of_error (Decides.silent (entries_of_append_error happrove))
  | refused _ _ =>
      have hdecision : refusal m o ≠ .buffered := refusal_ne_buffered
      obtain ⟨ds, hdecides, hds⟩ := settles_reject (m := m.refuse o) hdecision rfl
      exact ⟨ds, hdecides.congr rfl rfl, hds⟩

/-- A round that goes on has taken its decisions; one that stops settles. -/
theorem settles_round (cfg : Config φ) (peerId : String) (env : StageEnv φ) (m : Manager φ) :
    match flushRound cfg peerId env m with
    | .stop outcome => Settles cfg m outcome
    | .next m' ds => Decides cfg m ds m' := by
  have hcase := flushRound_cases cfg peerId env m
  generalize flushRound cfg peerId env m = round at hcase ⊢
  cases hcase with
  | idle _ => exact Settles.of_ok (Decides.silent rfl)
  | expired hnext _ hreject =>
      have hstale : DecisionType.stale ≠ .buffered := nofun
      obtain ⟨ds, hdecides, hds⟩ := settles_reject hstale hreject
      exact ⟨ds, hdecides.congr rfl rfl, hds⟩
  | seen _ _ _ => exact Decides.silent rfl
  | raised _ _ _ happly =>
      obtain ⟨ds, hdecides, -⟩ := settles_apply happly
      exact Settles.of_error (hdecides.congr rfl rfl)
  | @skipped last o oldStatus m' r _ _ _ happly _ =>
      obtain ⟨ds, hdecides, hds⟩ := settles_apply happly
      obtain rfl := hds _ rfl
      -- the result differs from that of the application in its metadata only
      refine ⟨?_, fun d hd => ?_, fun d hd => ?_, ?_⟩
      · exact hdecides.entries
      · rw [List.mem_singleton.mp hd]
        rcases hdecides.answered (o, r) (List.mem_singleton_self _) with ⟨hd, he⟩ | ⟨hd, he, hp⟩
        · exact .buffered hd he
        · exact .entered hd he hp
      · rw [List.mem_singleton.mp hd]
        exact hdecides.weighed (o, r) (List.mem_singleton_self _)
      · exact hdecides.chain
  | applied _ _ _ happly _ =>
      obtain ⟨ds, hdecides, hds⟩ := settles_apply happly
      obtain rfl := hds _ rfl
      exact hdecides.congr rfl rfl

theorem settles_flushLoop (cfg : Config φ) (peerId : String) (rounds : ℕ)
    (envs : ℕ → StageEnv φ) (m : Manager φ) :
    Settles cfg m (flushLoop cfg peerId rounds envs m) := by
  induction rounds generalizing envs m with
  | zero => exact Settles.of_ok (Decides.silent rfl)
  | succ rounds ih =>
      have hround := settles_round cfg peerId (envs 0) m
      rw [flushLoop]
      split
      · rename_i outcome hstop
        rw [hstop] at hround
        exact hround
      · rename_i m' ds hnext
        rw [hnext] at hround
        obtain ⟨rest, hrest, hall⟩ := ih (fun i => envs (i + 1)) m'
        refine ⟨ds ++ rest, hround.append hrest, fun ds' hds' => ?_⟩
        obtain ⟨rest', hrest', rfl⟩ := map_eq_ok hds'
        rw [hall _ hrest']

theorem settles_flush (cfg : Config φ) (peerId : String) (envs : ℕ → StageEnv φ) (m : Manager φ) :
    Settles cfg m (flushReorderBuffer cfg peerId envs m) := by
  have hloop := settles_flushLoop cfg peerId (m.buffer peerId).size envs m
  unfold flushReorderBuffer
  dsimp only
  split
  · exact Settles.of_ok (Decides.silent rfl)
  · split
    · rename_i heq
      rw [heq] at hloop
      exact hloop
    · rename_i heq
      rw [heq] at hloop
      split
      · obtain ⟨ds, hdecides, hds⟩ := hloop
        exact ⟨ds, hdecides.congr rfl rfl, hds⟩
      · exact hloop

end Parts

/-! ## Who carries an observation -/

/-- Two witnesses of positive weight, of different observers and from different provenances. -/
def TrustedPair (cfg : Config φ) (reputation : ReputationLedger φ) (o : PeerObservation φ) : Prop :=
  ∃ v ∈ o.witnessSet, ∃ w ∈ o.witnessSet, v.observerId ≠ w.observerId ∧
    cfg.provenanceBucket v.observerProvenance ≠ cfg.provenanceBucket w.observerProvenance ∧
    ((0 : ℤ) : φ) < reputation.reputationWeight v.observerId ∧
    ((0 : ℤ) : φ) < reputation.reputationWeight w.observerId

/-- The count quorum of a list of witnesses: two observers and two provenances. -/
def Quorate (cfg : Config φ) (witnesses : List (Fields φ)) : Prop :=
  2 ≤ (witnesses.map (·.observerId)).dedup.length ∧
    2 ≤ (witnesses.map fun w => cfg.provenanceBucket w.observerProvenance).dedup.length

/-- What the count quorum of the code asks for. -/
theorem checkQuorum_iff (o : PeerObservation φ) : checkQuorum cfg o ↔ Quorate cfg o.witnessSet := by
  unfold checkQuorum validateWitnessQuorum Quorate
  constructor
  · intro h
    split at h
    · cases h
    split at h
    · cases h
    split at h
    · cases h
    · rename_i hids hbuckets
      exact ⟨Nat.le_of_not_lt hids, Nat.le_of_not_lt hbuckets⟩
  · rintro ⟨hids, hbuckets⟩
    have hlength : 2 ≤ o.witnessSet.length := by
      rw [← List.length_map (f := (·.observerId))]
      exact hids.trans (List.dedup_sublist _).length_le
    rw [if_neg (Nat.not_lt.mpr hlength), if_neg (Nat.not_lt.mpr hids),
      if_neg (Nat.not_lt.mpr hbuckets)]

/-- If any two members agree in one of two respects, then all agree in one of them. -/
theorem all_agree_of_pairs {α β γ : Type*} [Inhabited β] {p : α → Prop} {f : α → β} {g : α → γ}
    (h : ∀ x y, p x → p y → f x = f y ∨ g x = g y) :
    (∃ b, ∀ x, p x → f x = b) ∨ ∃ c, ∀ x, p x → g x = c := by
  by_cases hall : ∃ b, ∀ x, p x → f x = b
  · exact Or.inl hall
  · -- two members that differ in the first respect
    have hne : ∃ x, p x := by
      by_contra hnone
      exact hall ⟨default, fun x hx => absurd ⟨x, hx⟩ hnone⟩
    obtain ⟨x, hx⟩ := hne
    obtain ⟨y, hy, hxy⟩ : ∃ y, p y ∧ f y ≠ f x := by
      by_contra hnone
      exact hall ⟨f x, fun y hy => by_contra fun hf => hnone ⟨y, hy, hf⟩⟩
    have hg : g y = g x := (h y x hy hx).resolve_left hxy
    refine Or.inr ⟨g x, fun z hz => ?_⟩
    by_cases hfz : f z = f x
    · exact ((h z y hz hy).resolve_left fun hzy => hxy (hzy.symm.trans hfz)).trans hg
    · exact (h z x hz hx).resolve_left hfz

/-- An observer or a bucket that has all the witnesses of positive weight is there unless two of
them are independent. -/
theorem lone_of_not_trustedPair {reputation : ReputationLedger φ} {o : PeerObservation φ}
    (h : ¬ TrustedPair cfg reputation o) :
    (∃ observerId, ∀ w, w ∈ o.witnessSet ∧
        ((0 : ℤ) : φ) < reputation.reputationWeight w.observerId → w.observerId = observerId) ∨
      ∃ bucket, ∀ w, w ∈ o.witnessSet ∧
        ((0 : ℤ) : φ) < reputation.reputationWeight w.observerId →
          cfg.provenanceBucket w.observerProvenance = bucket := by
  refine all_agree_of_pairs fun v w hv hw => ?_
  by_contra hdiffer
  rw [not_or] at hdiffer
  exact h ⟨v, hv.1, w, hw.1, hdiffer.1, hdiffer.2, hv.2, hw.2⟩

/-! ## What one observer or one bucket scores -/

/-- The largest of 0 and the weights of the witnesses in a bucket, as the vote keeps it. -/
def bucketWeight (cfg : Config φ) (reputation : ReputationLedger φ) (o : PeerObservation φ)
    (bucket : String) : φ :=
  ((o.witnessSet.filter fun w => cfg.provenanceBucket w.observerProvenance = bucket).map
    fun w => reputation.reputationWeight w.observerId).foldl PyReal.max ((0 : ℤ) : φ)

/-- The buckets in which an observer is a witness. -/
def bucketsOf (cfg : Config φ) (o : PeerObservation φ) (observerId : String) : List String :=
  ((o.witnessSet.filter (·.observerId = observerId)).map
    fun w => cfg.provenanceBucket w.observerProvenance).dedup

/-- No observer and no bucket that has all the witnesses of positive weight reaches the threshold:
the observer with its weight in each of its buckets, the bucket with its largest weight. -/
structure OutOfReach (cfg : Config φ) (reputation : ReputationLedger φ) (o : PeerObservation φ) :
    Prop where
  observer : ∀ observerId,
    (∀ w ∈ o.witnessSet, ((0 : ℤ) : φ) < reputation.reputationWeight w.observerId →
      w.observerId = observerId) →
    ¬ cfg.weightedQuorumThreshold ≤ PyReal.sum (List.replicate (bucketsOf cfg o observerId).length
      (PyReal.max ((0 : ℤ) : φ) (reputation.reputationWeight observerId)))
  bucket : ∀ bucket,
    (∀ w ∈ o.witnessSet, ((0 : ℤ) : φ) < reputation.reputationWeight w.observerId →
      cfg.provenanceBucket w.observerProvenance = bucket) →
    ¬ cfg.weightedQuorumThreshold ≤ PyReal.sum [bucketWeight cfg reputation o bucket]

section Score

variable {reputation : ReputationLedger φ} {o : PeerObservation φ}

theorem mem_bucketsOf {observerId bucket : String} : bucket ∈ bucketsOf cfg o observerId ↔
    ∃ w ∈ o.witnessSet, w.observerId = observerId ∧
      cfg.provenanceBucket w.observerProvenance = bucket := by
  simp only [bucketsOf, List.mem_dedup, List.mem_map, List.mem_filter, decide_eq_true_eq, and_assoc]

theorem bucketWeight_of_not_pos {bucket : String}
    (h : ∀ w ∈ o.witnessSet, ((0 : ℤ) : φ) < reputation.reputationWeight w.observerId →
      cfg.provenanceBucket w.observerProvenance ≠ bucket) :
    bucketWeight cfg reputation o bucket = ((0 : ℤ) : φ) := by
  refine PyReal.foldl_max_of_not_lt fun v hv hpos => ?_
  obtain ⟨w, hw, rfl⟩ := List.mem_map.mp hv
  obtain ⟨hw, hbucket⟩ := List.mem_filter.mp hw
  exact h w hw hpos (of_decide_eq_true hbucket)

/-- The vote adds up what the buckets score, each once. -/
theorem weightedScore_weighted (cfg : Config φ) (reputation : ReputationLedger φ)
    (o : PeerObservation φ) : ∃ buckets : List String, buckets.Nodup ∧
      (∀ w ∈ o.witnessSet, cfg.provenanceBucket w.observerProvenance ∈ buckets) ∧
      (weighted cfg reputation o).weightedScore =
        PyReal.sum (buckets.map (bucketWeight cfg reputation o)) := by
  let votes : List (String × φ) := o.witnessSet.map fun w =>
    (cfg.provenanceBucket w.observerProvenance, reputation.reputationWeight w.observerId)
  let byBucket : List (String × φ) := votes.foldl (fun m e => Entries.set m e.1
    (PyReal.max ((Entries.get? m e.1).getD ((0 : ℤ) : φ)) e.2)) []
  have hzip : o.witnessSet.zip (buildQuorumVote cfg o true).witnessProvenanceBuckets =
      o.witnessSet.map fun w => (w, cfg.provenanceBucket w.observerProvenance) :=
    List.map_prod_left_eq_zip.symm
  have hscore : (weighted cfg reputation o).weightedScore =
      PyReal.sum (byBucket.map Prod.snd) := by
    simp only [weighted, weightVotes, hzip, List.foldl_map, byBucket, votes]
  have hget : ∀ bucket, Entries.get? byBucket bucket = if bucket ∈ votes.map Prod.fst then
      some (bucketWeight cfg reputation o bucket) else none := by
    intro bucket
    have hvalues : (votes.filter (·.1 = bucket)).map Prod.snd =
        (o.witnessSet.filter fun w => cfg.provenanceBucket w.observerProvenance = bucket).map
          fun w => reputation.reputationWeight w.observerId := by
      simp only [votes, List.filter_map, List.map_map, Function.comp_def]
    have hfold := Entries.get?_foldl_set PyReal.max ((0 : ℤ) : φ) votes [] bucket
    rw [hvalues] at hfold
    exact hfold
  have hnodup : (byBucket.map Prod.fst).Nodup := Entries.nodup_foldl_set _ _ votes List.nodup_nil
  refine ⟨byBucket.map Prod.fst, hnodup, fun w hw => ?_, ?_⟩
  · by_contra hnone
    have hvote : cfg.provenanceBucket w.observerProvenance ∈ votes.map Prod.fst :=
      List.mem_map.mpr ⟨_, List.mem_map_of_mem hw, rfl⟩
    have hnone' := hget (cfg.provenanceBucket w.observerProvenance)
    rw [if_pos hvote, Entries.get?_eq_none.mpr hnone] at hnone'
    cases hnone'
  · rw [hscore, List.map_map]
    congr 1
    refine List.map_congr_left fun e he => ?_
    have hvalue := hget e.1
    rw [Entries.get?_of_mem hnodup he] at hvalue
    split at hvalue
    · exact Option.some.inj hvalue
    · cases hvalue

variable [PyReal.Voting φ]

/-- A bucket that has all the witnesses of positive weight scores alone. -/
theorem weightedScore_of_lone_bucket {bucket : String}
    (h : ∀ w ∈ o.witnessSet, ((0 : ℤ) : φ) < reputation.reputationWeight w.observerId →
      cfg.provenanceBucket w.observerProvenance = bucket) :
    (weighted cfg reputation o).weightedScore =
      PyReal.sum [bucketWeight cfg reputation o bucket] := by
  obtain ⟨buckets, hnodup, hbuckets, hscore⟩ := weightedScore_weighted cfg reputation o
  have hothers : ∀ b ∈ buckets, ¬ b = bucket → bucketWeight cfg reputation o b = ((0 : ℤ) : φ) :=
    fun b _ hb => bucketWeight_of_not_pos fun w hw hpos heq => hb (heq.symm.trans (h w hw hpos))
  have hin : ∀ b ∈ buckets, b = bucket →
      bucketWeight cfg reputation o b = bucketWeight cfg reputation o bucket := fun b _ hb => by
    rw [hb]
  rw [hscore, PyReal.sum_map_of_zeros hin hothers]
  by_cases hmem : bucket ∈ buckets
  · have hcount : buckets.countP (· = bucket) = 1 := List.count_eq_one_of_mem hnodup hmem
    rw [hcount]
    rfl
  · have hcount : buckets.countP (· = bucket) = 0 := List.count_eq_zero_of_not_mem hmem
    have hzero : bucketWeight cfg reputation o bucket = ((0 : ℤ) : φ) :=
      bucketWeight_of_not_pos fun w hw _ heq => hmem (heq ▸ hbuckets w hw)
    rw [hcount, hzero]
    exact (PyReal.Voting.sum_zero [] []).symm

/-- An observer that has all the witnesses of positive weight scores in each of its buckets. -/
theorem weightedScore_of_lone_observer {observerId : String}
    (h : ∀ w ∈ o.witnessSet, ((0 : ℤ) : φ) < reputation.reputationWeight w.observerId →
      w.observerId = observerId) :
    (weighted cfg reputation o).weightedScore =
      PyReal.sum (List.replicate (bucketsOf cfg o observerId).length
        (PyReal.max ((0 : ℤ) : φ) (reputation.reputationWeight observerId))) := by
  obtain ⟨buckets, hnodup, hbuckets, hscore⟩ := weightedScore_weighted cfg reputation o
  have hin : ∀ b ∈ buckets, b ∈ bucketsOf cfg o observerId → bucketWeight cfg reputation o b =
      PyReal.max ((0 : ℤ) : φ) (reputation.reputationWeight observerId) := by
    intro b _ hb
    obtain ⟨w, hw, hid, hbucket⟩ := mem_bucketsOf.mp hb
    refine PyReal.foldl_max_of_lone ?_ fun v hv => ?_
    · rw [← hid]
      exact List.mem_map.mpr ⟨w, List.mem_filter.mpr ⟨hw, decide_eq_true hbucket⟩, rfl⟩
    · obtain ⟨u, hu, rfl⟩ := List.mem_map.mp hv
      by_cases hpos : ((0 : ℤ) : φ) < reputation.reputationWeight u.observerId
      · exact Or.inl (by rw [h u (List.mem_filter.mp hu).1 hpos])
      · exact Or.inr hpos
  have hout : ∀ b ∈ buckets, b ∉ bucketsOf cfg o observerId →
      bucketWeight cfg reputation o b = ((0 : ℤ) : φ) := fun b _ hb =>
    bucketWeight_of_not_pos fun w hw hpos heq => hb (mem_bucketsOf.mpr ⟨w, hw, h w hw hpos, heq⟩)
  have hperm : (buckets.filter (· ∈ bucketsOf cfg o observerId)).Perm
      (bucketsOf cfg o observerId) := by
    refine (List.perm_ext_iff_of_nodup (hnodup.filter _) (List.nodup_dedup _)).mpr fun b => ?_
    rw [List.mem_filter, decide_eq_true_eq]
    refine ⟨And.right, fun hb => ⟨?_, hb⟩⟩
    obtain ⟨w, hw, -, rfl⟩ := mem_bucketsOf.mp hb
    exact hbuckets w hw
  rw [hscore, PyReal.sum_map_of_zeros hin hout, List.countP_eq_length_filter, hperm.length_eq]

/-- What passes the weight gate has an independent trusted pair exactly if no observer and no bucket
could have passed it alone. -/
theorem trustedPair_iff_of_passes (hpasses : (weighted cfg reputation o).passes) :
    TrustedPair cfg reputation o ↔ OutOfReach cfg reputation o := by
  have hscore : cfg.weightedQuorumThreshold ≤ (weighted cfg reputation o).weightedScore :=
    of_decide_eq_true hpasses
  constructor
  · rintro ⟨v, hv, w, hw, hid, hbucket, hvpos, hwpos⟩
    exact ⟨fun observerId h => absurd ((h v hv hvpos).trans (h w hw hwpos).symm) hid,
      fun bucket h => absurd ((h v hv hvpos).trans (h w hw hwpos).symm) hbucket⟩
  · intro h
    by_contra hpair
    rcases lone_of_not_trustedPair hpair with ⟨observerId, hlone⟩ | ⟨bucket, hlone⟩
    · have hlone' := fun w hw hpos => hlone w ⟨hw, hpos⟩
      exact h.observer observerId hlone' (weightedScore_of_lone_observer hlone' ▸ hscore)
    · have hlone' := fun w hw hpos => hlone w ⟨hw, hpos⟩
      exact h.bucket bucket hlone' (weightedScore_of_lone_bucket hlone' ▸ hscore)

end Score

/-! ## Calls -/

theorem settles_evaluate [PyReal.Text φ] (cfg : Config φ) (m : Manager φ) (c : Call φ) :
    Settles cfg m ((evaluate cfg m c).1,
      (evaluate cfg m c).2.map fun e => decisions c (.ok e)) := by
  have hcase := evaluate_cases cfg m c
  generalize evaluate cfg m c = outcome at hcase ⊢
  cases hcase with
  | @refused _ _ outcome _ hreject _ hdecision =>
      have hsettles := settles_reject hdecision hreject
      obtain ⟨m', result⟩ := outcome
      cases result with
      | ok r => exact hsettles
      | error e => exact hsettles
  | retried _ hresult => exact Settles.of_ok (decides_heldBack hresult rfl)
  | held _ _ hresult => exact Settles.of_ok (decides_heldBack hresult rfl)
  | raised _ happly =>
      obtain ⟨ds, hdecides, -⟩ := settles_apply happly
      exact Settles.of_error hdecides
  | @applied m' r _ happly =>
      obtain ⟨ds, hdecides, hds⟩ := settles_apply happly
      obtain rfl := hds _ rfl
      obtain ⟨rest, hrest, hall⟩ := settles_flush cfg c.obs.peerId c.flushEnv m'
      refine ⟨_, hdecides.append hrest, fun ds' hds' => ?_⟩
      obtain ⟨e, he, rfl⟩ := map_eq_ok hds'
      obtain ⟨flushed, hflushed, rfl⟩ := map_eq_ok he
      rw [decisions, hall _ hflushed]
      rfl

end Perpetua.Transition

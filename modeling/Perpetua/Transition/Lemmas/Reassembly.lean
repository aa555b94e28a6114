import Mathlib.Data.Finset.Card
import Perpetua.Transition.Lemmas.Delivery

/-!
# Reassembling the order of a peer

A stream of observations with consecutive sequences. Behind some deliveries, what lies below the first
gap is applied and what lies above it waits; a delivery either closes the gap, so that the flush
applies everything up to the next one, or waits too.
-/

namespace Perpetua.Transition

open Perpetua.Membership Audit

variable {φ : Type} [PyReal φ] {cfg : Config φ} {m : Manager φ}

/-! ## The stream -/

/-- The key of the observation with index `i`. -/
def keyAt (obs : ℕ → PeerObservation φ) (i : ℕ) : Key := ((obs 0).epoch, (obs 0).sequence + i)

/-- The first `n` observations are of one peer and one epoch, have consecutive sequences and a
quorum, and none contradicts another. -/
structure Consecutive (cfg : Config φ) (obs : ℕ → PeerObservation φ) (n : ℕ) : Prop where
  peerId : ∀ i < n, (obs i).peerId = (obs 0).peerId
  orderKey : ∀ i < n, orderKey (obs i) = keyAt obs i
  consistent : ∀ i < n, ∀ j < i, contradicts (obs i) (logged (obs j)) = false
  quorum : ∀ i < n, checkQuorum cfg (obs i)

/-- No append of the stage fails, and no observation of the stream is stale at it. -/
structure Steady (obs : ℕ → PeerObservation φ) (n : ℕ) (env : StageEnv φ) : Prop where
  fault : env.append.fault = none
  fresh : ∀ i < n, ¬(obs i).isStale env.now

variable {obs : ℕ → PeerObservation φ} {n : ℕ}

theorem keyAt_injective : Function.Injective (keyAt obs) := by
  intro i j h
  have hsequence := congrArg Prod.snd h
  simp only [keyAt] at hsequence
  omega

theorem keyAt_next (i : ℕ) : Key.next (keyAt obs i) = keyAt obs (i + 1) := by
  simp [Key.next, keyAt, add_assoc]

theorem place_next (next : ℕ) :
    place (if next = 0 then none else some (keyAt obs (next - 1))) (keyAt obs next) = .inOrder := by
  split
  · rfl
  · simp only [place, keyAt]
    rw [if_neg (by omega), if_neg (by omega)]

theorem place_later {next i : ℕ} (hstarted : next ≠ 0) (hlt : next < i) :
    place (if next = 0 then none else some (keyAt obs (next - 1))) (keyAt obs i) = .ahead := by
  rw [if_neg hstarted]
  simp only [place, keyAt]
  rw [if_neg (by omega), if_pos ⟨trivial, by omega⟩]

theorem Consecutive.dedupKey_ne (h : Consecutive cfg obs n) {i j : ℕ} (hi : i < n) (hj : j < n)
    (hne : i ≠ j) : dedupKey (obs i) ≠ dedupKey (obs j) := by
  intro heq
  have hkey := (dedupKey_inj ((h.peerId i hi).trans (h.peerId j hj).symm) heq).1
  rw [h.orderKey i hi, h.orderKey j hj] at hkey
  exact hne (keyAt_injective hkey)

theorem mem_of_mem_trimmed {ψ : Type} {bucket : List (LoggedObservation ψ)}
    {prior : LoggedObservation ψ}
    (h : prior ∈ trimmed bucket) : prior ∈ bucket := by
  unfold trimmed at h
  split at h
  · exact List.mem_of_mem_tail h
  · exact h

/-- What contradicts an observation was recorded before or is the last record. -/
theorem Contradicted.of_record {log : EquivocationLog φ} {o o' : PeerObservation φ}
    (h : Contradicted (log.record o') o) : Contradicted log o ∨ contradicts o (logged o') := by
  obtain ⟨prior, hmem, hprior⟩ := h
  rw [EquivocationLog.bucket, EquivocationLog.record, OrderedDict.get?_set] at hmem
  split at hmem
  · rename_i hkey
    rw [Option.getD_some, hkey] at hmem
    rcases List.mem_append.mp (mem_of_mem_trimmed hmem) with hmem | hmem
    · exact Or.inl ⟨prior, hmem, hprior⟩
    · rw [List.mem_singleton.mp hmem] at hprior
      exact Or.inr hprior
  · exact Or.inl ⟨prior, hmem, hprior⟩

/-- From `next` on the first index that does not wait is `gap`. -/
structure Gap (waits : Finset ℕ) (next gap : ℕ) : Prop where
  le : next ≤ gap
  below : ∀ i, next ≤ i → i < gap → i ∈ waits
  free : gap ∉ waits

theorem Gap.here {waits : Finset ℕ} {next : ℕ} (h : next ∉ waits) : Gap waits next next :=
  ⟨le_rfl, fun _ hle hlt => absurd hlt (Nat.not_lt.mpr hle), h⟩

theorem Gap.of_erase {waits : Finset ℕ} {next gap : ℕ} (h : Gap (waits.erase next) (next + 1) gap)
    (hwaits : next ∈ waits) : Gap waits next gap := by
  have hle := h.le
  refine ⟨by omega, fun i hi hlt => ?_, fun hmem => h.free (Finset.mem_erase.mpr ⟨by omega, hmem⟩)⟩
  rcases Nat.eq_or_lt_of_le hi with rfl | hi
  · exact hwaits
  · exact Finset.mem_of_mem_erase (h.below i hi hlt)

/-- The decisions accept the observations from `next` to `gap`, in order. -/
structure Accepts (obs : ℕ → PeerObservation φ) (next gap : ℕ) (ds : List (Decided φ)) : Prop where
  observations : ds.map (·.1) = (List.range' next (gap - next)).map obs
  accepted : ∀ d ∈ ds, d.2.accepted = true

theorem Accepts.nil {next : ℕ} : Accepts obs next next [] :=
  ⟨by rw [Nat.sub_self]; rfl, List.forall_mem_nil _⟩

theorem Accepts.cons {next gap : ℕ} {ds : List (Decided φ)} (h : Accepts obs (next + 1) gap ds)
    (hle : next + 1 ≤ gap) {r : StateTransitionResult φ} (hr : r.accepted = true) :
    Accepts obs next gap ((obs next, r) :: ds) := by
  have hlength : gap - next = (gap - (next + 1)) + 1 := by omega
  refine ⟨?_, List.forall_mem_cons.mpr ⟨hr, h.accepted⟩⟩
  rw [hlength, List.range'_succ, List.map_cons, List.map_cons, h.observations]

/-! ## The state behind some deliveries -/

/-- The observations below `next` are applied, and those of `waits` wait. -/
structure Caught (cfg : Config φ) (obs : ℕ → PeerObservation φ) (n : ℕ) (m : Manager φ) (next : ℕ)
    (waits : Finset ℕ) : Prop where
  watermark : m.lastAppliedKey.get? (obs 0).peerId =
    if next = 0 then none else some (keyAt obs (next - 1))
  inRange : ∀ i ∈ waits, next ≤ i ∧ i < n
  held : ∀ i ∈ waits, ∃ oldStatus,
    (m.buffer (obs 0).peerId).get? (keyAt obs i) = some (obs i, oldStatus)
  only : ∀ key entry, (m.buffer (obs 0).peerId).get? key = some entry →
    ∃ i ∈ waits, key = keyAt obs i
  unseen : ∀ i, next ≤ i → i < n → dedupKey (obs i) ∉ m.seenObservations.keys
  consistent : ∀ i, next ≤ i → i < n → ¬Contradicted m.equivocationLog (obs i)
  weight : ∀ i < n, (weighted cfg m.reputation (obs i)).passes
  audit : AuditWorks cfg m

namespace Caught

variable {next : ℕ} {waits : Finset ℕ}

theorem size_buffer (h : Caught cfg obs n m next waits) :
    (m.buffer (obs 0).peerId).size = waits.card := by
  have hkeys : (m.buffer (obs 0).peerId).keys.toFinset = waits.image (keyAt obs) := by
    ext key
    rw [List.mem_toFinset, OrderedDict.mem_keys, Finset.mem_image]
    constructor
    · rintro ⟨entry, hentry⟩
      obtain ⟨i, hi, rfl⟩ := h.only key entry hentry
      exact ⟨i, hi, rfl⟩
    · rintro ⟨i, hi, rfl⟩
      obtain ⟨oldStatus, hheld⟩ := h.held i hi
      exact ⟨_, hheld⟩
  have hnodup : (m.buffer (obs 0).peerId).keys.Nodup := (m.buffer (obs 0).peerId).nodup
  rw [OrderedDict.size_eq_keys, ← List.toFinset_card_of_nodup hnodup, hkeys,
    Finset.card_image_of_injective waits keyAt_injective]

theorem get?_of_free (h : Caught cfg obs n m next waits) {i : ℕ} (hfree : i ∉ waits) :
    (m.buffer (obs 0).peerId).get? (keyAt obs i) = none := by
  cases hget : (m.buffer (obs 0).peerId).get? (keyAt obs i) with
  | none => rfl
  | some entry =>
      obtain ⟨j, hj, heq⟩ := h.only _ entry hget
      exact absurd (keyAt_injective heq ▸ hj) hfree

theorem passes (h : Caught cfg obs n m next waits) (hobs : Consecutive cfg obs n) (hnext : next < n) :
    Passes cfg m (obs next) :=
  ⟨h.consistent next le_rfl hnext, hobs.quorum next hnext, h.weight next hnext⟩

/-- Taking the next entry out of the buffer. -/
theorem pop (h : Caught cfg obs n m next waits) :
    Caught cfg obs n (m.pop (obs 0).peerId (keyAt obs next)) next (waits.erase next) where
  watermark := h.watermark
  inRange := fun i hi => h.inRange i (Finset.mem_of_mem_erase hi)
  held := by
    intro i hi
    obtain ⟨oldStatus, hheld⟩ := h.held i (Finset.mem_of_mem_erase hi)
    refine ⟨oldStatus, ?_⟩
    rw [get?_buffer_pop, if_neg fun hkey => Finset.ne_of_mem_erase hi (keyAt_injective hkey.2)]
    exact hheld
  only := by
    intro key entry hget
    rw [get?_buffer_pop] at hget
    split at hget
    · cases hget
    · rename_i hne
      obtain ⟨i, hi, rfl⟩ := h.only key entry hget
      refine ⟨i, Finset.mem_erase.mpr ⟨?_, hi⟩, rfl⟩
      rintro rfl
      exact hne ⟨rfl, rfl⟩
  unseen := h.unseen
  consistent := h.consistent
  weight := h.weight
  audit := ⟨h.audit.chain, h.audit.signs⟩

/-- Committing the observation that comes next, when it does not wait. -/
theorem commit (h : Caught cfg obs n m next waits) (hobs : Consecutive cfg obs n)
    (hroom : 0 < cfg.maxCacheSize) (hnext : next < n) (hfree : next ∉ waits) {log : AuditLog}
    (hlog : verifyFrom cfg.verifier 0 "" log.entries) :
    Caught cfg obs n (m.commit cfg (obs next) log) (next + 1) waits where
  watermark := by
    rw [if_neg (Nat.succ_ne_zero next), Nat.add_sub_cancel, ← hobs.orderKey next hnext,
      ← hobs.peerId next hnext]
    exact OrderedDict.get?_touch_self hroom _ _ _
  inRange := by
    intro i hi
    obtain ⟨hle, hlt⟩ := h.inRange i hi
    exact ⟨Nat.lt_of_le_of_ne hle fun heq => hfree (heq ▸ hi), hlt⟩
  held := h.held
  only := h.only
  unseen := by
    intro i hle hlt hmem
    rcases OrderedDict.mem_keys_touch hmem with heq | hmem
    · exact hobs.dedupKey_ne hlt hnext (by omega) heq
    · exact h.unseen i (by omega) hlt hmem
  consistent := by
    intro i hle hlt hcontradicted
    rcases hcontradicted.of_record with hbefore | hnew
    · exact h.consistent i (by omega) hlt hbefore
    · rw [hobs.consistent i hlt next hle] at hnew
      cases hnew
  weight := h.weight
  audit := ⟨hlog, h.audit.signs⟩

/-- Holding an observation back that comes later. -/
theorem hold (h : Caught cfg obs n m next waits) (hobs : Consecutive cfg obs n)
    (hroom : 0 < cfg.maxCacheSize) {c : Call φ} {i : ℕ} (hc : c.obs = obs i) (hlt : next < i)
    (hi : i < n) : Caught cfg obs n (m.hold cfg c) next (insert i waits) := by
  have hbuffer : (m.hold cfg c).buffer (obs 0).peerId =
      ((m.buffer (obs 0).peerId).set (keyAt obs i) (c.obs, c.oldStatus)).moveToEnd (keyAt obs i) := by
    rw [Manager.buffer, Manager.hold, hc, hobs.peerId i hi, hobs.orderKey i hi,
      OrderedDict.get?_touch_self hroom, Option.getD_some]
  have hget (key : Key) : ((m.hold cfg c).buffer (obs 0).peerId).get? key =
      if keyAt obs i = key then some (c.obs, c.oldStatus)
      else (m.buffer (obs 0).peerId).get? key := by
    rw [hbuffer, OrderedDict.get?_moveToEnd, OrderedDict.get?_set]
  refine ⟨h.watermark, ?_, ?_, ?_, h.unseen, h.consistent, h.weight, ⟨h.audit.chain, h.audit.signs⟩⟩
  · intro j hj
    rcases Finset.mem_insert.mp hj with rfl | hj
    · exact ⟨hlt.le, hi⟩
    · exact h.inRange j hj
  · intro j hj
    rw [hget]
    rcases Finset.mem_insert.mp hj with rfl | hj
    · exact ⟨c.oldStatus, by rw [if_pos rfl, hc]⟩
    · split
      · rename_i hkey
        obtain rfl := keyAt_injective hkey
        exact ⟨c.oldStatus, by rw [hc]⟩
      · exact h.held j hj
  · intro key entry hentry
    rw [hget] at hentry
    split at hentry
    · rename_i hkey
      exact ⟨i, Finset.mem_insert_self i waits, hkey.symm⟩
    · obtain ⟨j, hj, hkey⟩ := h.only key entry hentry
      exact ⟨j, Finset.mem_insert_of_mem hj, hkey⟩

/-! ## The flush -/

theorem round_idle (h : Caught cfg obs n m next waits) (hstarted : next ≠ 0)
    (hfree : next ∉ waits) (env : StageEnv φ) :
    flushRound cfg (obs 0).peerId env m = .stop (m, .ok []) := by
  have hkey : Key.next (keyAt obs (next - 1)) = keyAt obs next := by
    rw [keyAt_next, Nat.sub_add_cancel (Nat.pos_of_ne_zero hstarted)]
  unfold flushRound
  simp only [h.watermark, if_neg hstarted, hkey, h.get?_of_free hfree]

theorem dropBuffer (h : Caught cfg obs n m next waits)
    (hempty : (m.buffer (obs 0).peerId).size = 0) :
    Caught cfg obs n (m.dropBuffer (obs 0).peerId) next waits where
  watermark := h.watermark
  inRange := h.inRange
  held := fun i hi => by
    rw [get?_buffer_dropBuffer hempty]
    exact h.held i hi
  only := fun key entry hget => by
    rw [get?_buffer_dropBuffer hempty] at hget
    exact h.only key entry hget
  unseen := h.unseen
  consistent := h.consistent
  weight := h.weight
  audit := ⟨h.audit.chain, h.audit.signs⟩

/-- A round applies the observation that comes next, if it waits. -/
theorem round (h : Caught cfg obs n m next waits) (hobs : Consecutive cfg obs n)
    (hroom : 0 < cfg.maxCacheSize) (hstarted : next ≠ 0) (hwaits : next ∈ waits) {env : StageEnv φ}
    (henv : Steady obs n env) : ∃ m' r, r.accepted = true ∧
      flushRound cfg (obs 0).peerId env m = .next m' [(obs next, r)] ∧
      Caught cfg obs n m' (next + 1) (waits.erase next) := by
  have hnext := (h.inRange next hwaits).2
  obtain ⟨oldStatus, hheld⟩ := h.held next hwaits
  have hlast : m.lastAppliedKey.get? (obs 0).peerId = some (keyAt obs (next - 1)) := by
    rw [h.watermark, if_neg hstarted]
  have hkey : Key.next (keyAt obs (next - 1)) = keyAt obs next := by
    rw [keyAt_next, Nat.sub_add_cancel (Nat.pos_of_ne_zero hstarted)]
  have hpop := h.pop
  obtain ⟨log, entry, happrove, hlog⟩ := hpop.audit.approve (obs next) oldStatus env henv.fault
  obtain ⟨r, hr, -, happly⟩ := applyObservation_of_passes (hpop.passes hobs hnext) happrove
  have hcommit := hpop.commit hobs hroom hnext (Finset.notMem_erase next waits) hlog
  refine ⟨_, r, hr, ?_, hcommit⟩
  have hmoved : ¬((m.pop (obs 0).peerId (keyAt obs next)).commit cfg (obs next) log).lastAppliedKey.get?
      (obs 0).peerId = some (keyAt obs (next - 1)) := by
    rw [hcommit.watermark, if_neg (Nat.succ_ne_zero next), Nat.add_sub_cancel, Option.some.injEq]
    intro heq
    have := keyAt_injective heq
    omega
  have hunseen : dedupKey (obs next) ∉
      (m.pop (obs 0).peerId (keyAt obs next)).seenObservations.keys := h.unseen next le_rfl hnext
  rw [Manager.pop] at happly hmoved hunseen
  unfold flushRound
  simp only [hlast, hkey, hheld, if_neg (henv.fresh next hnext), if_neg hunseen, happly,
    if_neg hmoved]
  rfl

/-- The loop applies what waits up to the next gap. -/
theorem flushLoop (h : Caught cfg obs n m next waits) (hobs : Consecutive cfg obs n)
    (hroom : 0 < cfg.maxCacheSize) (hstarted : next ≠ 0) {envs : ℕ → StageEnv φ}
    (henvs : ∀ i, Steady obs n (envs i)) {rounds : ℕ} (hrounds : waits.card = rounds) :
    ∃ m' gap ds, Transition.flushLoop cfg (obs 0).peerId rounds envs m = (m', .ok ds) ∧
      Gap waits next gap ∧ Caught cfg obs n m' gap (waits.filter (gap < ·)) ∧
      Accepts obs next gap ds := by
  induction rounds generalizing m next waits envs with
  | zero =>
      obtain rfl := Finset.card_eq_zero.mp hrounds
      have hfree : next ∉ (∅ : Finset ℕ) := Finset.notMem_empty next
      refine ⟨m, next, [], rfl, .here hfree, ?_, .nil⟩
      rwa [Finset.filter_empty]
  | succ rounds ih =>
      by_cases hwaits : next ∈ waits
      · obtain ⟨m', r, hr, hround, hcaught⟩ := h.round hobs hroom hstarted hwaits (henvs 0)
        have hcard : (waits.erase next).card = rounds := by
          rw [Finset.card_erase_of_mem hwaits, hrounds, Nat.add_sub_cancel]
        obtain ⟨m'', gap, ds, hloop, hgap, hend, haccepts⟩ :=
          ih hcaught (Nat.succ_ne_zero next) (fun i => henvs (i + 1)) hcard
        refine ⟨m'', gap, (obs next, r) :: ds, ?_, hgap.of_erase hwaits, ?_, haccepts.cons hgap.le hr⟩
        · rw [Transition.flushLoop, hround]
          simp only [hloop]
          rfl
        · have hfilter : (waits.erase next).filter (gap < ·) = waits.filter (gap < ·) := by
            ext i
            have hle := hgap.le
            simp only [Finset.mem_filter, Finset.mem_erase]
            constructor
            · rintro ⟨⟨-, hi⟩, hlt⟩
              exact ⟨hi, hlt⟩
            · rintro ⟨hi, hlt⟩
              exact ⟨⟨by omega, hi⟩, hlt⟩
          rwa [hfilter] at hend
      · refine ⟨m, next, [], ?_, .here hwaits, ?_, .nil⟩
        · rw [Transition.flushLoop, h.round_idle hstarted hwaits]
        · have hfilter : waits.filter (next < ·) = waits := by
            refine Finset.filter_true_of_mem fun i hi => ?_
            exact Nat.lt_of_le_of_ne (h.inRange i hi).1 fun heq => hwaits (heq ▸ hi)
          rwa [hfilter]

/-- The flush applies what waits up to the next gap, and takes an empty buffer away. -/
theorem flush (h : Caught cfg obs n m next waits) (hobs : Consecutive cfg obs n)
    (hroom : 0 < cfg.maxCacheSize) (hstarted : next ≠ 0)
    (hclosed : waits = ∅ → m.reorderBuffer.get? (obs 0).peerId = none) {envs : ℕ → StageEnv φ}
    (henvs : ∀ i, Steady obs n (envs i)) :
    ∃ m' gap ds, flushReorderBuffer cfg (obs 0).peerId envs m = (m', .ok ds) ∧
      Gap waits next gap ∧ Caught cfg obs n m' gap (waits.filter (gap < ·)) ∧
      (waits.filter (gap < ·) = ∅ → m'.reorderBuffer.get? (obs 0).peerId = none) ∧
      Accepts obs next gap ds := by
  have hsize := h.size_buffer
  unfold flushReorderBuffer
  dsimp only
  by_cases hempty : waits = ∅
  · have hzero : (m.buffer (obs 0).peerId).size = 0 := by rw [hsize, hempty, Finset.card_empty]
    subst hempty
    refine ⟨m, next, [], if_pos hzero, .here (Finset.notMem_empty next), ?_, fun _ => hclosed rfl, .nil⟩
    rwa [Finset.filter_empty]
  · have hsome : (m.buffer (obs 0).peerId).size ≠ 0 := by
      rw [hsize]
      exact fun hzero => hempty (Finset.card_eq_zero.mp hzero)
    obtain ⟨m', gap, ds, hloop, hgap, hend, haccepts⟩ :=
      h.flushLoop hobs hroom hstarted henvs hsize.symm
    rw [if_neg hsome, hloop]
    dsimp only
    by_cases hdrained : (m'.buffer (obs 0).peerId).size = 0
    · refine ⟨m'.dropBuffer (obs 0).peerId, gap, ds, if_pos hdrained, hgap, hend.dropBuffer hdrained,
        fun _ => ?_, haccepts⟩
      rw [Manager.dropBuffer, OrderedDict.get?_erase, if_pos rfl]
    · refine ⟨m', gap, ds, if_neg hdrained, hgap, hend, fun hnone => ?_, haccepts⟩
      rw [hend.size_buffer, hnone] at hdrained
      exact absurd rfl hdrained

/-! ## Calls -/

section Calls

variable [PyReal.Text φ] {c : Call φ}

/-- The observation that comes next is accepted, with what waits behind it. -/
theorem deliver_next (h : Caught cfg obs n m next waits) (hobs : Consecutive cfg obs n)
    (hroom : 0 < cfg.maxCacheSize)
    (hclosed : waits = ∅ → m.reorderBuffer.get? (obs 0).peerId = none) (hc : c.obs = obs next)
    (hnext : next < n) (hfree : next ∉ waits) (henv : Steady obs n c.env)
    (hflush : ∀ i, Steady obs n (c.flushEnv i)) :
    ∃ m' gap e, evaluate cfg m c = (m', .ok e) ∧ Gap waits (next + 1) gap ∧
      Caught cfg obs n m' gap (waits.filter (gap < ·)) ∧
      (waits.filter (gap < ·) = ∅ → m'.reorderBuffer.get? (obs 0).peerId = none) ∧
      Accepts obs next gap ((c.obs, e.result) :: e.flushed) := by
  have happlies : Applies m c := by
    refine ⟨hc ▸ h.unseen next le_rfl hnext, ?_, hc ▸ henv.fresh next hnext⟩
    rw [hc, hobs.peerId next hnext, h.watermark, hobs.orderKey next hnext]
    exact place_next next
  obtain ⟨log, entry, happrove, hlog⟩ := h.audit.approve c.obs c.oldStatus c.env henv.fault
  have hpasses : Passes cfg m c.obs := hc ▸ h.passes hobs hnext
  obtain ⟨r, hr, -, hevaluate⟩ := evaluate_of_commits happlies hpasses happrove
  have hcommit := h.commit hobs hroom hnext hfree hlog
  rw [hc, hobs.peerId next hnext] at hevaluate
  obtain ⟨m', gap, ds, hresult, hgap, hend, hclosed', haccepts⟩ :=
    hcommit.flush hobs hroom (Nat.succ_ne_zero next) hclosed hflush
  rw [hresult] at hevaluate
  exact ⟨m', gap, _, hevaluate, hgap, hend, hclosed', by rw [hc]; exact haccepts.cons hgap.le hr⟩

/-- An observation that comes later waits. -/
theorem deliver_later (h : Caught cfg obs n m next waits) (hobs : Consecutive cfg obs n)
    (hroom : 0 < cfg.maxCacheSize) (hstarted : next ≠ 0) {i : ℕ} (hc : c.obs = obs i)
    (hlt : next < i) (hi : i < n) (hfree : i ∉ waits) (hwindow : waits.card < cfg.reorderBufferMax)
    (henv : Steady obs n c.env) :
    ∃ r, r.accepted = false ∧ evaluate cfg m c = (m.hold cfg c, .ok { result := r }) ∧
      Caught cfg obs n (m.hold cfg c) next (insert i waits) := by
  have hholds : Holds cfg m c := by
    refine ⟨?_, ?_, ?_⟩
    · rw [hc, hobs.peerId i hi, h.watermark, hobs.orderKey i hi]
      exact place_later hstarted hlt
    · rw [hc, hobs.peerId i hi, hobs.orderKey i hi]
      exact h.get?_of_free hfree
    · rw [hc, hobs.peerId i hi, h.size_buffer]
      exact hwindow
  obtain ⟨r, hr, hevaluate⟩ := evaluate_of_holds hholds
    (hc ▸ h.unseen i hlt.le hi) (hc ▸ henv.fresh i hi)
  exact ⟨r, hr, hevaluate, h.hold hobs hroom hc hlt hi⟩

end Calls

end Caught

end Perpetua.Transition

import Perpetua.Lib.HighWater
import Perpetua.Transition.Lemmas.Buffers

/-!
# The order of what is accepted

As long as the cache of watermarks has room for every peer, each part of a call moves the watermark
of its peer upwards, and past what it accepts.
-/

namespace Perpetua.Transition

open Perpetua.Membership HighWater

variable {φ : Type} [PyReal φ] {cfg : Config φ} {K : List String}

/-! ## Results -/

/-- The decisions of a list that accept an observation of the peer, as marks. -/
def acceptedMarks (peerId : String) (decided : List (Decided φ)) : List Mark :=
  decided.filterMap fun d =>
    if d.2.accepted ∧ d.1.peerId = peerId then some (orderKey d.1).mark else none

theorem acceptedMarks_append (peerId : String) (ds ds' : List (Decided φ)) :
    acceptedMarks peerId (ds ++ ds') = acceptedMarks peerId ds ++ acceptedMarks peerId ds' :=
  List.filterMap_append

/-! ## Ascents -/

/-- The watermarks are those of known peers, and the entries are filed. -/
structure Tracks (K : List String) (m : Manager φ) : Prop where
  known : ∀ peerId ∈ m.lastAppliedKey.keys, peerId ∈ K
  filed : WellFiled m

/-- From `m` to `m'` every watermark rises past what is accepted of its peer. -/
structure Ascends (K : List String) (m : Manager φ) (ds : List (Decided φ)) (m' : Manager φ) : Prop
    where
  tracks : Tracks K m'
  rises : ∀ peerId, Rises (m.watermark peerId) (acceptedMarks peerId ds) (m'.watermark peerId)

theorem Ascends.append {m m' m'' : Manager φ} {ds ds' : List (Decided φ)} (h : Ascends K m ds m')
    (h' : Ascends K m' ds' m'') : Ascends K m (ds ++ ds') m'' where
  tracks := h'.tracks
  rises := fun peerId => by
    rw [acceptedMarks_append]
    exact (h.rises peerId).append (h'.rises peerId)

/-- What is accepted may be lost to an exception. -/
theorem Ascends.forget {m m' : Manager φ} {ds : List (Decided φ)} (h : Ascends K m ds m') :
    Ascends K m [] m' :=
  ⟨h.tracks, fun peerId => Rises.silent (h.rises peerId).le⟩

/-- Only the watermarks matter where an ascent starts. -/
theorem Ascends.of_start {m₀ m m' : Manager φ} {ds : List (Decided φ)} (h : Ascends K m₀ ds m')
    (hlast : m₀.lastAppliedKey = m.lastAppliedKey) : Ascends K m ds m' :=
  ⟨h.tracks, fun peerId => by rw [← watermark_congr hlast]; exact h.rises peerId⟩

/-- Only the watermarks and the buffers matter where an ascent ends. -/
theorem Ascends.to_end {m m₁ m' : Manager φ} {ds : List (Decided φ)} (h : Ascends K m ds m₁)
    (hlast : m'.lastAppliedKey = m₁.lastAppliedKey) (hfiled : WellFiled m') : Ascends K m ds m' :=
  ⟨⟨by rw [hlast]; exact h.tracks.known, hfiled⟩,
    fun peerId => by rw [watermark_congr hlast]; exact h.rises peerId⟩

/-- Nothing is accepted and no watermark moves. -/
theorem Ascends.still {m m' : Manager φ} (h : Tracks K m)
    (hlast : m'.lastAppliedKey = m.lastAppliedKey) (hfiled : WellFiled m') {ds : List (Decided φ)}
    (hds : ∀ d ∈ ds, d.2.accepted = false) : Ascends K m ds m' where
  tracks := ⟨by rw [hlast]; exact h.known, hfiled⟩
  rises := fun peerId => by
    have hnil : acceptedMarks peerId ds = [] :=
      List.filterMap_eq_nil_iff.mpr fun d hd => by simp [hds d hd]
    rw [hnil, watermark_congr hlast]
    exact Rises.refl _

theorem Ascends.refl {m : Manager φ} (h : Tracks K m) : Ascends K m [] m :=
  .still h rfl h.filed (List.forall_mem_nil _)

/-- The watermark of a known peer moves up to an observation, which is accepted or not. -/
theorem Ascends.touch {m m' : Manager φ} {o : PeerObservation φ} (h : Tracks K m)
    (hK : K.length ≤ cfg.maxCacheSize) (ho : o.peerId ∈ K)
    (hlt : m.watermark o.peerId < (orderKey o).mark) (hfiled : WellFiled m')
    (hlast : m'.lastAppliedKey = m.lastAppliedKey.touch cfg.maxCacheSize o.peerId (orderKey o))
    {ds : List (Decided φ)} (hds : ds = [] ∨ ∃ r, ds = [(o, r)]) : Ascends K m ds m' where
  tracks := by
    refine ⟨fun peerId hpeer => ?_, hfiled⟩
    rw [hlast] at hpeer
    rcases OrderedDict.mem_keys_touch hpeer with rfl | hpeer
    · exact ho
    · exact h.known peerId hpeer
  rises := fun peerId => by
    have hmark : m'.watermark peerId =
        if o.peerId = peerId then (orderKey o).mark else m.watermark peerId := by
      rw [Manager.watermark, hlast, OrderedDict.get?_touch_of_subset h.known ho hK]
      by_cases hp : o.peerId = peerId
      · rw [if_pos hp, if_pos hp]
      · rw [if_neg hp, if_neg hp, Manager.watermark]
    rw [hmark]
    by_cases hp : o.peerId = peerId
    · subst hp
      rw [if_pos rfl]
      rcases hds with rfl | ⟨r, rfl⟩
      · exact Rises.silent hlt.le
      · by_cases hr : r.accepted
        · have hone : acceptedMarks o.peerId [(o, r)] = [(orderKey o).mark] := by
            simp [acceptedMarks, hr]
          rw [hone]
          exact Rises.emit hlt
        · have hnone : acceptedMarks o.peerId [(o, r)] = [] := by simp [acceptedMarks, hr]
          rw [hnone]
          exact Rises.silent hlt.le
    · have hnil : acceptedMarks peerId ds = [] := by
        rcases hds with rfl | ⟨r, rfl⟩
        · rfl
        · simp [acceptedMarks, hp]
      rw [if_neg hp, hnil]
      exact Rises.refl _

/-! ## The parts of a call -/

section Parts

variable {m : Manager φ} (hK : K.length ≤ cfg.maxCacheSize)

/-- The result of applying one observation, as a list. -/
def one (o : PeerObservation φ) :
    Except Audit.AuditError (StateTransitionResult φ) → List (Decided φ)
  | .ok r => [(o, r)]
  | .error _ => []

theorem Tracks.reject {o : PeerObservation φ} {decision : DecisionType} {reason : Reason φ}
    {oldStatus : String} {env : StageEnv φ} {findings : Findings φ} (h : Tracks K m)
    {outcome : Outcome φ (StateTransitionResult φ)}
    (houtcome : reject cfg m o decision reason oldStatus env findings = outcome) :
    Ascends K m (one o outcome.2) outcome.1 := by
  refine Ascends.still h ?_ ?_ fun d hd => ?_
  · rw [← houtcome, reject_fst]
  · exact h.filed.congr (by rw [← houtcome, reject_fst])
  · cases hr : outcome.2 with
    | error e => rw [hr] at hd; cases hd
    | ok r =>
        rw [hr] at hd
        rw [List.mem_singleton.mp hd]
        exact accepted_of_reject (houtcome.symm ▸ hr)

theorem Tracks.pop (h : Tracks K m) (peerId : String) (key : Key) : Tracks K (m.pop peerId key) :=
  ⟨h.known, h.filed.pop peerId key⟩

include hK

theorem Tracks.apply {o : PeerObservation φ} {oldStatus : String} {env : StageEnv φ}
    (h : Tracks K m) (ho : o.peerId ∈ K) (hlt : m.watermark o.peerId < (orderKey o).mark)
    {outcome : Outcome φ (StateTransitionResult φ)}
    (houtcome : applyObservation cfg m o oldStatus (dedupKey o) env = outcome) :
    Ascends K m (one o outcome.2) outcome.1 := by
  have hcase := applyObservation_cases cfg m o oldStatus env
  rw [houtcome] at hcase
  cases hcase with
  | committed _ _ _ =>
      refine Ascends.touch h hK ho hlt ?_ ?_ (Or.inr ⟨_, rfl⟩)
      · exact h.filed.congr rfl
      · rfl
  | failed _ _ =>
      refine Ascends.still h ?_ ?_ (List.forall_mem_nil _)
      · rfl
      · exact h.filed.congr rfl
  | refused _ _ =>
      have hrefuse : Tracks K (m.refuse o) := ⟨h.known, h.filed.congr rfl⟩
      exact (hrefuse.reject rfl).of_start rfl

/-- The watermark moves to an entry that has been taken out. -/
theorem Tracks.advance {o : PeerObservation φ} {last : Key} {peerId : String}
    (h : Tracks K m) (hpeer : peerId ∈ K) (hlast : m.lastAppliedKey.get? peerId = some last)
    (hentry : o.peerId = peerId ∧ orderKey o = last.next) :
    Ascends K m [] (m.advance cfg peerId o) := by
  obtain ⟨rfl, hkey⟩ := hentry
  refine Ascends.touch h hK hpeer ?_ ?_ ?_ (Or.inl rfl)
  · rw [hkey, watermark_of_get? hlast, mark_lt_mark]; simp [Key.next]
  · exact h.filed.congr rfl
  · rfl

theorem Tracks.round {peerId : String} {env : StageEnv φ} (h : Tracks K m) (hpeer : peerId ∈ K)
    {round : Round φ} (hcase : RoundCase cfg peerId env m round) :
    Ascends K m round.decided round.manager := by
  cases hcase with
  | idle _ => exact Ascends.refl h
  | @expired _ o _ _ result hnext _ hreject =>
      have hone : returned (result.map fun r => [(o, r)]) = one o result := by cases result <;> rfl
      rw [Round.decided, hone]
      exact ((h.pop _ _).reject hreject).of_start (m := m) rfl
  | @seen last _ _ hnext _ _ =>
      have hpop := h.pop peerId last.next
      have hadvance := hpop.advance hK hpeer hnext.watermark (h.filed _ _ _ hnext.entry)
      exact hadvance.of_start (m := m) rfl
  | raised hnext _ _ happly =>
      obtain ⟨rfl, hkey⟩ := h.filed _ _ _ hnext.entry
      have hlt := hnext.watermark_lt
      rw [← hkey] at hlt
      have happ := ((h.pop _ _).apply hK hpeer hlt happly).of_start (m := m) rfl
      refine happ.forget.to_end ?_ ?_
      · rfl
      · exact happ.tracks.filed.restore ⟨rfl, hkey⟩
  | @skipped _ o _ m' _ hnext _ _ happly hkept =>
      obtain ⟨rfl, hkey⟩ := h.filed _ _ _ hnext.entry
      have hlt := hnext.watermark_lt
      rw [← hkey] at hlt
      have happ := ((h.pop _ _).apply hK hpeer hlt happly).of_start (m := m) rfl
      have hseen : Tracks K (m'.markSeen cfg o) := ⟨happ.tracks.known, happ.tracks.filed.congr rfl⟩
      have hall := happ.append ((hseen.advance hK hpeer hkept ⟨rfl, hkey⟩).of_start (m := m') rfl)
      exact ⟨hall.tracks, fun q => hall.rises q⟩
  | applied hnext _ _ happly hmoved =>
      obtain ⟨rfl, hkey⟩ := h.filed _ _ _ hnext.entry
      have hlt := hnext.watermark_lt
      rw [← hkey] at hlt
      exact ((h.pop _ _).apply hK hpeer hlt happly).of_start (m := m) rfl

theorem Tracks.flushLoop {peerId : String} (hpeer : peerId ∈ K) (rounds : ℕ)
    (envs : ℕ → StageEnv φ) (h : Tracks K m) :
    Ascends K m (returned (flushLoop cfg peerId rounds envs m).2)
      (flushLoop cfg peerId rounds envs m).1 := by
  induction rounds generalizing envs m with
  | zero => exact Ascends.refl h
  | succ rounds ih =>
      have hround := h.round hK hpeer (flushRound_cases cfg peerId (envs 0) m)
      rw [Transition.flushLoop]
      split
      · rename_i outcome hstop
        rw [hstop] at hround
        exact hround
      · rename_i m' ds hnext
        rw [hnext] at hround
        have htracks : Tracks K m' := hround.tracks
        have hrest := ih (fun i => envs (i + 1)) htracks
        generalize Transition.flushLoop cfg peerId rounds (fun i => envs (i + 1)) m' = out at hrest ⊢
        obtain ⟨m'', rest⟩ := out
        cases rest with
        | ok rest => exact hround.append hrest
        | error e => exact (hround.append hrest).forget

theorem Tracks.flush {peerId : String} (hpeer : peerId ∈ K) (envs : ℕ → StageEnv φ)
    (h : Tracks K m) :
    Ascends K m (returned (flushReorderBuffer cfg peerId envs m).2)
      (flushReorderBuffer cfg peerId envs m).1 := by
  have hloop := h.flushLoop hK hpeer (m.buffer peerId).size envs
  unfold flushReorderBuffer
  dsimp only
  split
  · exact Ascends.refl h
  · split
    · rename_i heq
      rw [heq] at hloop
      exact hloop
    · rename_i heq
      rw [heq] at hloop
      split
      · rename_i hempty
        refine hloop.to_end rfl fun q key entry hget => ?_
        rw [get?_buffer_dropBuffer hempty] at hget
        exact hloop.tracks.filed q key entry hget
      · exact hloop

/-! ## Calls -/

/-- The decisions of a call that returns, the outer one first. -/
def decisions (c : Call φ) : Except Audit.AuditError (Evaluation φ) → List (Decided φ)
  | .ok e => (c.obs, e.result) :: e.flushed
  | .error _ => []

theorem Tracks.evaluate [PyReal.Text φ] {c : Call φ} (h : Tracks K m) (hpeer : c.obs.peerId ∈ K) :
    Ascends K m (decisions c (evaluate cfg m c).2) (evaluate cfg m c).1 := by
  have hcase := evaluate_cases cfg m c
  generalize Transition.evaluate cfg m c = outcome at hcase ⊢
  cases hcase with
  | @refused _ _ outcome _ hreject _ =>
      obtain ⟨m', result⟩ := outcome
      have hone := h.reject hreject
      cases result with
      | ok r => exact hone
      | error e => exact hone
  | retried _ hresult =>
      refine Ascends.still h rfl h.filed fun d hd => ?_
      rw [List.mem_singleton.mp hd]
      exact hresult.accepted
  | held _ _ hresult =>
      refine Ascends.still h ?_ ?_ fun d hd => ?_
      · rfl
      · exact h.filed.hold c
      · rw [List.mem_singleton.mp hd]
        exact hresult.accepted
  | raised happlies happly =>
      have happ := h.apply hK hpeer (watermark_lt_of_inOrder happlies.inOrder) happly
      exact happ
  | @applied m' r happlies happly =>
      have happ := h.apply hK hpeer (watermark_lt_of_inOrder happlies.inOrder) happly
      have hflush := happ.tracks.flush hK hpeer c.flushEnv
      generalize flushReorderBuffer cfg c.obs.peerId c.flushEnv _ = out at hflush ⊢
      obtain ⟨m'', flushed⟩ := out
      cases flushed with
      | ok flushed => exact happ.append hflush
      | error e => exact (happ.append hflush).forget

end Parts

end Perpetua.Transition

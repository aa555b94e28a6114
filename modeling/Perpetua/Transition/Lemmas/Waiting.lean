import Perpetua.Transition.Lemmas.Rounds

/-!
# Waiting observations that can still be reached

An entry is live when its peer's watermark can come to it: it lies further on in the epoch of the
watermark. An entry that is not live stays in the buffer for good.
-/

namespace Perpetua.Transition

open Perpetua.Membership

variable {φ : Type} [PyReal φ] {cfg : Config φ} {m : Manager φ}

/-- The watermark can come to the key. -/
def Live (last key : Key) : Prop := key.1 = last.1 ∧ last.2 < key.2

instance (last key : Key) : Decidable (Live last key) := inferInstanceAs (Decidable (_ ∧ _))

/-- Every waiting observation is live. -/
def AllLive (m : Manager φ) : Prop :=
  ∀ peerId key entry, (m.buffer peerId).get? key = some entry →
    ∃ last, m.lastAppliedKey.get? peerId = some last ∧ Live last key

/-- An entry that the watermark of its peer cannot come to. -/
structure Dead (m : Manager φ) (peerId : String) (key : Key) : Prop where
  waits : ∃ entry, (m.buffer peerId).get? key = some entry
  stranded : ∀ last, m.lastAppliedKey.get? peerId = some last → ¬ Live last key

theorem not_allLive_iff : ¬ AllLive m ↔ ∃ peerId key, Dead m peerId key := by
  constructor
  · intro h
    by_contra hnone
    refine h fun peerId key entry hget => ?_
    by_contra hdead
    refine hnone ⟨peerId, key, ⟨entry, hget⟩, fun last hlast hlive => ?_⟩
    exact hdead ⟨last, hlast, hlive⟩
  · rintro ⟨peerId, key, ⟨entry, hget⟩, hdead⟩ h
    obtain ⟨last, hlast, hlive⟩ := h peerId key entry hget
    exact hdead last hlast hlive

theorem live_next (last : Key) : Live last last.next := ⟨rfl, Int.lt_succ last.2⟩

theorem Live.of_next {last key : Key} (h : Live last.next key) : Live last key :=
  ⟨h.1, (Int.lt_succ last.2).trans h.2⟩

theorem Live.next {last key : Key} (h : Live last key) (hne : key ≠ last.next) :
    Live last.next key := by
  refine ⟨h.1, lt_of_le_of_ne h.2 fun he => hne ?_⟩
  exact Prod.ext h.1 he.symm

theorem AllLive.congr {m' : Manager φ} (h : AllLive m) (hlast : m'.lastAppliedKey = m.lastAppliedKey)
    (hbuffer : m'.reorderBuffer = m.reorderBuffer) : AllLive m' := fun q k entry hget => by
  rw [buffer_congr hbuffer] at hget
  rw [hlast]
  exact h q k entry hget

/-! ## Rounds -/

section Rounds

variable {peerId : String} {m' : Manager φ}

theorem AllLive.round (h : AllLive m) (hsound : Sound cfg m)
    (hround : RoundEffect cfg peerId m m') : AllLive m' := by
  intro q k entry hget
  cases hround with
  | kept hlast hbuffer =>
      rw [hbuffer] at hget
      rw [hlast]
      exact h q k entry hget
  | dropped hnext hlast hbuffer =>
      rw [hbuffer] at hget
      rw [hlast]
      split at hget
      · cases hget
      · exact h q k entry hget
  | @moved last _ hnext hlast hbuffer =>
      rw [hbuffer] at hget
      rw [hlast, get?_touch_watermark hnext.watermark hsound.bounded]
      split at hget
      · cases hget
      · rename_i hne
        obtain ⟨last', hlast', hlive⟩ := h q k entry hget
        by_cases hq : peerId = q
        · subst hq
          obtain rfl := Option.some.inj (hnext.watermark.symm.trans hlast')
          exact ⟨last.next, if_pos rfl, hlive.next fun hk => hne ⟨rfl, hk⟩⟩
        · exact ⟨last', (if_neg hq).trans hlast', hlive⟩

theorem Dead.round {q : String} {k : Key} (h : Dead m q k) (hsound : Sound cfg m)
    (hround : RoundEffect cfg peerId m m') : Dead m' q k := by
  obtain ⟨⟨entry, hget⟩, hdead⟩ := h
  have hne : ∀ {last entry}, NextUp m peerId last entry → ¬ (peerId = q ∧ k = last.next) := by
    rintro last _ hnext ⟨rfl, rfl⟩
    exact hdead last hnext.watermark (live_next last)
  cases hround with
  | kept hlast hbuffer => exact ⟨⟨entry, by rw [hbuffer]; exact hget⟩, by rw [hlast]; exact hdead⟩
  | dropped hnext hlast hbuffer =>
      refine ⟨⟨entry, ?_⟩, by rw [hlast]; exact hdead⟩
      rw [hbuffer, if_neg (hne hnext)]
      exact hget
  | @moved last _ hnext hlast hbuffer =>
      refine ⟨⟨entry, ?_⟩, fun last' hlast' => ?_⟩
      · rw [hbuffer, if_neg (hne hnext)]
        exact hget
      · rw [hlast, get?_touch_watermark hnext.watermark hsound.bounded] at hlast'
        split at hlast'
        · rename_i hq
          subst hq
          rw [← Option.some.inj hlast']
          exact fun hlive => hdead last hnext.watermark hlive.of_next
        · exact hdead last' hlast'

end Rounds

/-! ## The flush -/

theorem Sound.dropBuffer {peerId : String} (h : Sound cfg m) (hempty : (m.buffer peerId).size = 0) :
    Sound cfg (m.dropBuffer peerId) :=
  ⟨fun q k entry hget => h.filed q k entry (by rwa [get?_buffer_dropBuffer hempty] at hget),
    h.bounded⟩

theorem AllLive.flush {peerId : String} (envs : ℕ → StageEnv φ) (h : AllLive m)
    (hsound : Sound cfg m) :
    AllLive (flushReorderBuffer cfg peerId envs m).1 := by
  refine (flush_invariant (I := fun m => Sound cfg m ∧ AllLive m) ?_ ?_ envs ⟨hsound, h⟩).2
  · rintro m env ⟨hsound, h⟩
    have hround := roundEffect hsound peerId env
    exact ⟨hround.sound hsound, h.round hsound hround⟩
  · rintro m ⟨hsound, h⟩ hempty
    refine ⟨hsound.dropBuffer hempty, fun q k entry hget => ?_⟩
    rw [get?_buffer_dropBuffer hempty] at hget
    exact h q k entry hget

theorem Dead.flush {peerId q : String} {k : Key} (envs : ℕ → StageEnv φ) (h : Dead m q k)
    (hsound : Sound cfg m) : Dead (flushReorderBuffer cfg peerId envs m).1 q k := by
  refine (flush_invariant (I := fun m => Sound cfg m ∧ Dead m q k) ?_ ?_ envs ⟨hsound, h⟩).2
  · rintro m env ⟨hsound, h⟩
    have hround := roundEffect hsound peerId env
    exact ⟨hround.sound hsound, h.round hsound hround⟩
  · rintro m ⟨hsound, h⟩ hempty
    obtain ⟨entry, hget⟩ := h.waits
    refine ⟨hsound.dropBuffer hempty, ⟨entry, ?_⟩, h.stranded⟩
    rw [get?_buffer_dropBuffer hempty]
    exact hget

theorem Sound.flush {peerId : String} (envs : ℕ → StageEnv φ) (h : Sound cfg m) :
    Sound cfg (flushReorderBuffer cfg peerId envs m).1 :=
  flush_invariant (fun _ env h => (roundEffect h peerId env).sound h)
    (fun _ h hempty => h.dropBuffer hempty) envs h

/-! ## Calls -/

/-- The call commits its observation. -/
structure Commits (cfg : Config φ) (m : Manager φ) (c : Call φ) : Prop where
  applies : Applies m c
  passes : Passes cfg m c.obs
  recorded : ∃ log entry, approve cfg m c.obs c.oldStatus c.env = (log, .ok entry)

/-- The observation opens a new epoch while others of its peer wait. -/
def OpensEpoch (m : Manager φ) (c : Call φ) : Prop :=
  ∃ last, m.lastAppliedKey.get? c.obs.peerId = some last ∧ last.1 < c.obs.epoch ∧
    (m.buffer c.obs.peerId).size ≠ 0

/-- An observation with the same key is waiting. -/
def AlreadyWaits (m : Manager φ) (c : Call φ) : Prop :=
  ∃ entry, (m.buffer c.obs.peerId).get? (orderKey c.obs) = some entry

/-- The watermark of the observation's peer takes the place of that of a peer with waiting
observations. -/
def EvictsWaiting (cfg : Config φ) (m : Manager φ) (c : Call φ) : Prop :=
  ∃ q, m.lastAppliedKey.evicted cfg.maxCacheSize c.obs.peerId = some q ∧ (m.buffer q).size ≠ 0

/-- The call leaves an entry behind that no watermark will come to. -/
def Strands (cfg : Config φ) (m : Manager φ) (c : Call φ) : Prop :=
  Commits cfg m c ∧ (OpensEpoch m c ∨ AlreadyWaits m c ∨ EvictsWaiting cfg m c)

theorem exists_get?_of_size_ne_zero {d : Buffer φ} (h : d.size ≠ 0) :
    ∃ key entry, d.get? key = some entry := by
  obtain ⟨⟨key, entry⟩, l, hl⟩ := List.exists_cons_of_length_pos (Nat.pos_of_ne_zero h)
  exact ⟨key, entry, by rw [OrderedDict.get?, hl, Entries.get?_cons, if_pos rfl]⟩

theorem size_ne_zero_of_get? {d : Buffer φ} {key : Key} {entry : Waiting φ}
    (h : d.get? key = some entry) : d.size ≠ 0 := fun hsize => by
  rw [get?_of_size_eq_zero hsize] at h
  cases h

/-- Where an observation that is in order stands to the watermark. -/
theorem place_inOrder {last key : Key} (h : place (some last) key = .inOrder) :
    last.1 < key.1 ∨ key = last.next := by
  rw [place] at h
  split at h
  · cases h
  · split at h
    · cases h
    · rename_i hbehind hahead
      by_cases he : key.1 = last.1
      · right
        refine Prod.ext he ?_
        simp only [Key.next]
        omega
      · left; omega

/-- A commit keeps every entry live unless one of the three cases is met. -/
theorem allLive_commit_iff (h : AllLive m) (hsound : Sound cfg m) {c : Call φ} (happ : Applies m c)
    (log : Audit.AuditLog) :
    AllLive (m.commit cfg c.obs log) ↔
      ¬ (OpensEpoch m c ∨ AlreadyWaits m c ∨ EvictsWaiting cfg m c) := by
  have hlast : ∀ q, (m.commit cfg c.obs log).lastAppliedKey.get? q =
      if m.lastAppliedKey.evicted cfg.maxCacheSize c.obs.peerId = some q then none
      else if c.obs.peerId = q then some (orderKey c.obs) else m.lastAppliedKey.get? q := fun q =>
    OrderedDict.get?_touch hsound.bounded _ _ q
  constructor
  · rintro hlive (⟨last, hget, hlt, hwaits⟩ | ⟨entry, hget⟩ | ⟨q, hevicted, hwaits⟩)
    · obtain ⟨key, entry, hentry⟩ := exists_get?_of_size_ne_zero hwaits
      obtain ⟨last', hlast', hlive'⟩ := hlive c.obs.peerId key entry hentry
      obtain ⟨last₀, hlast₀, hlive₀⟩ := h c.obs.peerId key entry hentry
      obtain rfl := Option.some.inj (hget.symm.trans hlast₀)
      have htouch := get?_touch_watermark hget hsound.bounded (orderKey c.obs) c.obs.peerId
      rw [if_pos rfl] at htouch
      obtain rfl := Option.some.inj (htouch.symm.trans hlast')
      have hepoch : c.obs.epoch = last.1 := hlive'.1.symm.trans hlive₀.1
      omega
    · obtain ⟨last', hlast', hlive'⟩ := hlive c.obs.peerId (orderKey c.obs) entry hget
      rw [hlast] at hlast'
      split at hlast'
      · cases hlast'
      · rw [if_pos rfl] at hlast'
        rw [← Option.some.inj hlast'] at hlive'
        exact absurd hlive'.2 (lt_irrefl _)
    · obtain ⟨key, entry, hentry⟩ := exists_get?_of_size_ne_zero hwaits
      obtain ⟨last', hlast', -⟩ := hlive q key entry hentry
      rw [hlast, if_pos hevicted] at hlast'
      cases hlast'
  · intro hnot q k entry hget
    change (m.buffer q).get? k = some entry at hget
    rw [not_or, not_or] at hnot
    rw [hlast, if_neg fun hevicted => hnot.2.2 ⟨q, hevicted, size_ne_zero_of_get? hget⟩]
    obtain ⟨last, hlast₀, hlive⟩ := h q k entry hget
    by_cases hq : c.obs.peerId = q
    · subst hq
      refine ⟨orderKey c.obs, if_pos rfl, ?_⟩
      have hplace := happ.inOrder
      rw [hlast₀] at hplace
      rcases place_inOrder hplace with hlt | hkey
      · exact absurd ⟨last, hlast₀, hlt, size_ne_zero_of_get? hget⟩ hnot.1
      · rw [hkey]
        refine hlive.next fun hk => hnot.2.1 ⟨entry, ?_⟩
        rw [hkey, ← hk]
        exact hget
    · exact ⟨last, (if_neg hq).trans hlast₀, hlive⟩

theorem AllLive.hold {c : Call φ} (h : AllLive m) (hholds : Holds cfg m c) :
    AllLive (m.hold cfg c) := by
  intro q k entry hget
  rcases get?_buffer_hold hget with ⟨rfl, rfl, -⟩ | hget
  · have hahead := hholds.ahead
    cases hlast : m.lastAppliedKey.get? c.obs.peerId with
    | none => rw [hlast] at hahead; cases hahead
    | some last =>
        refine ⟨last, hlast, ?_⟩
        rw [hlast, place] at hahead
        split at hahead
        · cases hahead
        · split at hahead
          · rename_i hkey
            exact ⟨hkey.1, (Int.lt_succ last.2).trans hkey.2⟩
          · cases hahead
  · exact h q k entry hget

theorem Sound.apply {o : PeerObservation φ} {oldStatus : String} {env : StageEnv φ}
    {outcome : Outcome φ (StateTransitionResult φ)} (h : Sound cfg m)
    (hcase : ApplyCase cfg m o oldStatus env outcome) : Sound cfg outcome.1 := by
  refine ⟨h.filed.congr hcase.reorderBuffer, ?_⟩
  rcases hcase.lastAppliedKey with hlast | ⟨hlast, -⟩
  · rw [hlast]; exact h.bounded
  · rw [hlast]; exact OrderedDict.size_touch_le h.bounded _ _

section Step

variable [PyReal.Text φ]

theorem Sound.step (h : Sound cfg m) (c : Call φ) : Sound cfg (step cfg m c) := by
  rw [Transition.step]
  have hcase := evaluate_cases cfg m c
  generalize evaluate cfg m c = outcome at hcase ⊢
  cases hcase with
  | refused _ hreject _ _ =>
      rw [← hreject, alone, reject_fst]
      exact ⟨h.filed.congr rfl, h.bounded⟩
  | retried _ _ => exact h
  | held _ _ _ => exact ⟨h.filed.hold c, h.bounded⟩
  | raised _ happly =>
      have hcase := applyObservation_cases cfg m c.obs c.oldStatus c.env
      rw [happly] at hcase
      exact h.apply hcase
  | applied _ happly =>
      have hcase := applyObservation_cases cfg m c.obs c.oldStatus c.env
      rw [happly] at hcase
      exact (h.apply hcase).flush c.flushEnv

/-- A call keeps every entry live unless it strands one. -/
theorem allLive_step_iff (h : AllLive m) (hsound : Sound cfg m) (c : Call φ) :
    AllLive (step cfg m c) ↔ ¬ Strands cfg m c := by
  rw [step]
  have hcase := evaluate_cases cfg m c
  generalize evaluate cfg m c = outcome at hcase ⊢
  cases hcase with
  | refused hnot hreject _ _ =>
      rw [← hreject, alone, reject_fst]
      exact iff_of_true (h.congr rfl rfl) fun hs => hnot hs.1.applies
  | retried hnot _ => exact iff_of_true h fun hs => hnot hs.1.applies
  | held hnot hholds _ => exact iff_of_true (h.hold hholds) fun hs => hnot hs.1.applies
  | raised happlies happly =>
      have hcase := applyObservation_cases cfg m c.obs c.oldStatus c.env
      generalize applyObservation cfg m c.obs c.oldStatus (dedupKey c.obs) c.env = out at hcase happly
      cases hcase with
      | committed _ _ _ => cases happly
      | failed _ happrove =>
          obtain rfl := congrArg Prod.fst happly
          refine iff_of_true (h.congr rfl rfl) fun hs => ?_
          obtain ⟨log, entry, hrecorded⟩ := hs.1.recorded
          rw [happrove] at hrecorded
          cases hrecorded
      | refused hfails _ =>
          obtain rfl := congrArg Prod.fst happly
          exact iff_of_true (h.congr rfl rfl) fun hs => hfails hs.1.passes
  | applied happlies happly =>
      have hcase := applyObservation_cases cfg m c.obs c.oldStatus c.env
      generalize applyObservation cfg m c.obs c.oldStatus (dedupKey c.obs) c.env = out at hcase happly
      have hsound' := hsound.apply hcase
      cases hcase with
      | @committed log _ _ hpasses happrove _ =>
          obtain rfl := congrArg Prod.fst happly
          have hcommits : Commits cfg m c := ⟨happlies, hpasses, _, _, happrove⟩
          by_cases hs : OpensEpoch m c ∨ AlreadyWaits m c ∨ EvictsWaiting cfg m c
          · have hdead := mt (allLive_commit_iff h hsound happlies log).mp (not_not.mpr hs)
            obtain ⟨q, k, hdead⟩ := not_allLive_iff.mp hdead
            refine iff_of_false (not_allLive_iff.mpr ⟨q, k, ?_⟩) (not_not.mpr ⟨hcommits, hs⟩)
            exact hdead.flush c.flushEnv hsound'
          · have hlive := (allLive_commit_iff h hsound happlies log).mpr hs
            exact iff_of_true (hlive.flush c.flushEnv hsound') fun hstrands => hs hstrands.2
      | failed _ _ => cases happly
      | refused hfails _ =>
          obtain rfl := congrArg Prod.fst happly
          refine iff_of_true (AllLive.flush c.flushEnv ?_ hsound') fun hs => hfails hs.1.passes
          exact h.congr rfl rfl

end Step

end Perpetua.Transition

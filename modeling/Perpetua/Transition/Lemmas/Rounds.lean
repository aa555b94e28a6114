import Perpetua.Transition.Lemmas.Buffers

/-!
# Rounds of the flush, seen from the buffers

A round leaves watermarks and buffers as they are, drops the next entry, or moves the watermark over
it. What every round keeps, the flush keeps.
-/

namespace Perpetua.Transition

open Perpetua.Membership

variable {φ : Type} [PyReal φ] {cfg : Config φ} {m : Manager φ}

/-! ## Sound states -/

/-- The entries are filed and the cache of watermarks is within its limit. -/
structure Sound (cfg : Config φ) (m : Manager φ) : Prop where
  filed : WellFiled m
  bounded : m.lastAppliedKey.size ≤ cfg.maxCacheSize

/-- Storing the watermark of a peer that has one evicts nothing. -/
theorem get?_touch_watermark {peerId : String} {last : Key} (h : m.lastAppliedKey.get? peerId = some last)
    (hm : m.lastAppliedKey.size ≤ cfg.maxCacheSize) (key : Key) (q : String) :
    (m.lastAppliedKey.touch cfg.maxCacheSize peerId key).get? q =
      if peerId = q then some key else m.lastAppliedKey.get? q := by
  have hmem : peerId ∈ m.lastAppliedKey.keys := OrderedDict.mem_keys.mpr ⟨last, h⟩
  rw [OrderedDict.get?_touch hm, OrderedDict.evicted, if_pos (Or.inl hmem), if_neg (by simp)]

/-- What a round can do to watermarks and buffers. -/
inductive RoundEffect (cfg : Config φ) (peerId : String) (m : Manager φ) : Manager φ → Prop
  | kept {m' : Manager φ} (hlast : m'.lastAppliedKey = m.lastAppliedKey)
      (hbuffer : ∀ q k, (m'.buffer q).get? k = (m.buffer q).get? k) : RoundEffect cfg peerId m m'
  | dropped {m' : Manager φ} {last : Key} {entry : Waiting φ} (h : NextUp m peerId last entry)
      (hlast : m'.lastAppliedKey = m.lastAppliedKey)
      (hbuffer : ∀ q k, (m'.buffer q).get? k =
        if peerId = q ∧ k = last.next then none else (m.buffer q).get? k) :
      RoundEffect cfg peerId m m'
  | moved {m' : Manager φ} {last : Key} {entry : Waiting φ} (h : NextUp m peerId last entry)
      (hlast : m'.lastAppliedKey = m.lastAppliedKey.touch cfg.maxCacheSize peerId last.next)
      (hbuffer : ∀ q k, (m'.buffer q).get? k =
        if peerId = q ∧ k = last.next then none else (m.buffer q).get? k) :
      RoundEffect cfg peerId m m'

/-- Applying either leaves the watermarks alone or moves that of the peer to the observation. -/
theorem ApplyCase.lastAppliedKey {o : PeerObservation φ} {oldStatus : String} {env : StageEnv φ}
    {outcome : Outcome φ (StateTransitionResult φ)} (h : ApplyCase cfg m o oldStatus env outcome) :
    outcome.1.lastAppliedKey = m.lastAppliedKey ∨
      outcome.1.lastAppliedKey =
        m.lastAppliedKey.touch cfg.maxCacheSize o.peerId (orderKey o) ∧ ∃ r, outcome.2 = .ok r := by
  cases h with
  | committed _ _ _ => exact Or.inr ⟨rfl, _, rfl⟩
  | failed _ _ => exact Or.inl rfl
  | refused _ _ => exact Or.inl rfl

theorem ApplyCase.reorderBuffer {o : PeerObservation φ} {oldStatus : String} {env : StageEnv φ}
    {outcome : Outcome φ (StateTransitionResult φ)} (h : ApplyCase cfg m o oldStatus env outcome) :
    outcome.1.reorderBuffer = m.reorderBuffer := by
  cases h <;> rfl

/-- An entry that is put back is where it was. -/
theorem get?_buffer_restore_pop {m' : Manager φ} {peerId : String} {last : Key} {entry : Waiting φ}
    (h : NextUp m peerId last entry) (hm' : m'.reorderBuffer = (m.pop peerId last.next).reorderBuffer)
    (q : String) (k : Key) :
    ((m'.restore peerId last.next entry).buffer q).get? k = (m.buffer q).get? k := by
  rw [get?_buffer_restore, buffer_congr hm', get?_buffer_pop]
  by_cases hqk : peerId = q ∧ last.next = k
  · obtain ⟨rfl, rfl⟩ := hqk
    rw [if_pos ⟨rfl, rfl⟩]
    exact h.entry.symm
  · rw [if_neg hqk, if_neg fun hc => hqk ⟨hc.1, hc.2.symm⟩]

theorem roundEffect (h : Sound cfg m) (peerId : String) (env : StageEnv φ) :
    RoundEffect cfg peerId m (flushRound cfg peerId env m).manager := by
  have hcase := flushRound_cases cfg peerId env m
  generalize flushRound cfg peerId env m = round at hcase ⊢
  cases hcase with
  | idle _ => exact .kept rfl fun _ _ => rfl
  | @expired last o oldStatus m' _ hnext _ hreject =>
      have hm' : m' = (reject cfg (m.pop peerId last.next) o .stale .expiredBeforeGapFilled oldStatus
        env {}).1 := by rw [hreject]
      rw [reject_fst] at hm'
      refine .dropped hnext ?_ fun q k => ?_
      · rw [Round.manager, hm']; rfl
      · rw [Round.manager, ← get?_buffer_pop, hm']; rfl
  | @seen last o _ hnext _ _ =>
      obtain ⟨-, hkey⟩ := h.filed _ _ _ hnext.entry
      refine .moved hnext ?_ fun q k => ?_
      · rw [← hkey]; rfl
      · rw [← get?_buffer_pop]; rfl
  | @raised last o oldStatus m' e hnext _ _ happly =>
      have hcase := applyObservation_cases cfg (m.pop peerId last.next) o oldStatus env
      rw [happly] at hcase
      refine .kept ?_ (get?_buffer_restore_pop hnext hcase.reorderBuffer)
      rcases hcase.lastAppliedKey with hlast | ⟨-, r, hr⟩
      · exact hlast
      · cases hr
  | @skipped last o oldStatus m' r hnext _ _ happly hkept =>
      have hcase := applyObservation_cases cfg (m.pop peerId last.next) o oldStatus env
      rw [happly] at hcase
      obtain ⟨rfl, hkey⟩ := h.filed _ _ _ hnext.entry
      have hlast : m'.lastAppliedKey = m.lastAppliedKey := by
        rcases hcase.lastAppliedKey with hlast | ⟨hlast, -⟩
        · exact hlast
        · change m'.lastAppliedKey = m.lastAppliedKey.touch _ _ _ at hlast
          rw [hlast, get?_touch_watermark hnext.watermark h.bounded, if_pos rfl] at hkept
          have hlt := (watermark_of_get? hnext.watermark) ▸ hnext.watermark_lt
          rw [← hkey, ← Option.some.inj hkept] at hlt
          exact absurd hlt (lt_irrefl _)
      refine .moved hnext ?_ fun q k => ?_
      · rw [← hkey, ← hlast]; rfl
      · rw [← get?_buffer_pop, ← buffer_congr hcase.reorderBuffer]; rfl
  | @applied last o oldStatus m' r hnext _ _ happly hmoved =>
      have hcase := applyObservation_cases cfg (m.pop peerId last.next) o oldStatus env
      rw [happly] at hcase
      obtain ⟨rfl, hkey⟩ := h.filed _ _ _ hnext.entry
      refine .moved hnext ?_ fun q k => ?_
      · rcases hcase.lastAppliedKey with hlast | ⟨hlast, -⟩
        · exact absurd ((congrArg (OrderedDict.get? · o.peerId) hlast).trans hnext.watermark) hmoved
        · rw [← hkey]; exact hlast
      · rw [← get?_buffer_pop, ← buffer_congr hcase.reorderBuffer]; rfl

/-! ## What the flush keeps -/

/-- The loop keeps what every round keeps. -/
theorem flushLoop_invariant {peerId : String} {I : Manager φ → Prop}
    (hround : ∀ m env, I m → I (flushRound cfg peerId env m).manager) (rounds : ℕ)
    (envs : ℕ → StageEnv φ) (h : I m) : I (flushLoop cfg peerId rounds envs m).1 := by
  induction rounds generalizing envs m with
  | zero => exact h
  | succ rounds ih =>
      have hstep := hround m (envs 0) h
      rw [flushLoop]
      split
      · rename_i outcome hstop
        rw [hstop] at hstep
        exact hstep
      · rename_i m' ds hnext
        rw [hnext] at hstep
        exact ih (fun i => envs (i + 1)) hstep

theorem flush_invariant {peerId : String} {I : Manager φ → Prop}
    (hround : ∀ m env, I m → I (flushRound cfg peerId env m).manager)
    (hdrop : ∀ m, I m → (m.buffer peerId).size = 0 → I (m.dropBuffer peerId))
    (envs : ℕ → StageEnv φ) (h : I m) : I (flushReorderBuffer cfg peerId envs m).1 := by
  have hloop := flushLoop_invariant hround (m.buffer peerId).size envs h
  unfold flushReorderBuffer
  dsimp only
  split
  · exact h
  · split
    · rename_i heq
      rw [heq] at hloop
      exact hloop
    · rename_i heq
      rw [heq] at hloop
      split
      · rename_i hempty
        exact hdrop _ hloop hempty
      · exact hloop

theorem RoundEffect.sound {peerId : String} {m' : Manager φ} (h : Sound cfg m)
    (hround : RoundEffect cfg peerId m m') : Sound cfg m' := by
  cases hround with
  | kept hlast hbuffer =>
      exact ⟨fun q k entry hget => h.filed q k entry (by rwa [hbuffer] at hget),
        hlast ▸ h.bounded⟩
  | dropped hnext hlast hbuffer =>
      refine ⟨fun q k entry hget => h.filed q k entry ?_, hlast ▸ h.bounded⟩
      rw [hbuffer] at hget
      split at hget
      · cases hget
      · exact hget
  | moved hnext hlast hbuffer =>
      refine ⟨fun q k entry hget => h.filed q k entry ?_, ?_⟩
      · rw [hbuffer] at hget
        split at hget
        · cases hget
        · exact hget
      · rw [hlast]
        exact OrderedDict.size_touch_le h.bounded _ _

end Perpetua.Transition

import Mathlib.Data.Int.ConditionallyCompleteOrder
import Mathlib.Data.Prod.Lex
import Mathlib.Order.WithBot
import Perpetua.Transition.Lemmas.Effects

/-!
# Watermarks and waiting observations

What each part of a call does to the watermark of a peer and to the entries of its buffer.
-/

namespace Perpetua.Transition

open Perpetua.Membership

variable {φ : Type} [PyReal φ] {cfg : Config φ} {m : Manager φ}

/-! ## Watermarks -/

/-- Epochs first, then sequences; below everything for a peer without a watermark. -/
abbrev Mark := WithBot (ℤ ×ₗ ℤ)

def Key.mark (key : Key) : Mark := ((toLex key : ℤ ×ₗ ℤ) : Mark)

/-- The watermark of a peer. -/
def Manager.watermark (m : Manager φ) (peerId : String) : Mark :=
  match m.lastAppliedKey.get? peerId with
  | none => ⊥
  | some key => Key.mark key

theorem mark_lt_mark {a b : Key} : Key.mark a < Key.mark b ↔ a.1 < b.1 ∨ a.1 = b.1 ∧ a.2 < b.2 := by
  rw [Key.mark, Key.mark, WithBot.coe_lt_coe, Prod.Lex.toLex_lt_toLex]

theorem watermark_of_get? {peerId : String} {key : Key}
    (h : m.lastAppliedKey.get? peerId = some key) : m.watermark peerId = Key.mark key := by
  rw [Manager.watermark, h]

theorem watermark_congr {m m' : Manager φ} (h : m'.lastAppliedKey = m.lastAppliedKey)
    (peerId : String) : m'.watermark peerId = m.watermark peerId := by
  rw [Manager.watermark, Manager.watermark, h]

/-- An observation that is in order lies above the watermark of its peer. -/
theorem watermark_lt_of_inOrder {peerId : String} {key : Key}
    (h : place (m.lastAppliedKey.get? peerId) key = .inOrder) : m.watermark peerId < key.mark := by
  cases hlast : m.lastAppliedKey.get? peerId with
  | none => rw [Manager.watermark, hlast]; exact WithBot.bot_lt_coe _
  | some last =>
      rw [watermark_of_get? hlast, mark_lt_mark]
      rw [hlast, place] at h
      split at h
      · cases h
      · omega

/-- The next entry lies above the watermark. -/
theorem NextUp.watermark_lt {peerId : String} {last : Key} {entry : Waiting φ}
    (h : NextUp m peerId last entry) : m.watermark peerId < last.next.mark := by
  rw [watermark_of_get? h.watermark, mark_lt_mark]
  simp [Key.next]

/-! ## Waiting observations -/

@[simp] theorem buffer_setBuffer (peerId : String) (b : Buffer φ) (q : String) :
    (m.setBuffer peerId b).buffer q = if peerId = q then b else m.buffer q := by
  simp only [Manager.buffer, Manager.setBuffer, OrderedDict.get?_set]
  split <;> rfl

theorem buffer_congr {m m' : Manager φ} (h : m'.reorderBuffer = m.reorderBuffer) (peerId : String) :
    m'.buffer peerId = m.buffer peerId := by
  rw [Manager.buffer, Manager.buffer, h]

theorem get?_buffer_pop (peerId : String) (key : Key) (q : String) (k : Key) :
    ((m.pop peerId key).buffer q).get? k =
      if peerId = q ∧ k = key then none else (m.buffer q).get? k := by
  rw [Manager.pop, buffer_setBuffer]
  by_cases hq : peerId = q
  · subst hq; simp
  · simp [hq]

theorem get?_buffer_restore (peerId : String) (key : Key) (entry : Waiting φ) (q : String)
    (k : Key) :
    ((m.restore peerId key entry).buffer q).get? k =
      if peerId = q ∧ key = k then some entry else (m.buffer q).get? k := by
  rw [Manager.restore, buffer_setBuffer]
  by_cases hq : peerId = q
  · subst hq; simp
  · simp [hq]

theorem get?_of_size_eq_zero {d : Buffer φ} (h : d.size = 0) (k : Key) : d.get? k = none := by
  rw [OrderedDict.get?, List.eq_nil_of_length_eq_zero h, Entries.get?_nil]

/-- An empty buffer can go. -/
theorem get?_buffer_dropBuffer {peerId : String} (h : (m.buffer peerId).size = 0) (q : String)
    (k : Key) : ((m.dropBuffer peerId).buffer q).get? k = (m.buffer q).get? k := by
  rw [Manager.buffer, Manager.dropBuffer, OrderedDict.get?_erase]
  split
  · rename_i hq
    rw [hq, get?_of_size_eq_zero h]
    rfl
  · rfl

/-- A call that holds its observation back adds that observation, if anything. -/
theorem get?_buffer_hold {c : Call φ} {q : String} {k : Key} {entry : Waiting φ}
    (h : ((m.hold cfg c).buffer q).get? k = some entry) :
    (q = c.obs.peerId ∧ k = orderKey c.obs ∧ entry = (c.obs, c.oldStatus)) ∨
      (m.buffer q).get? k = some entry := by
  unfold Manager.buffer at h
  cases hget : (m.hold cfg c).reorderBuffer.get? q with
  | none => rw [hget, Option.getD_none, OrderedDict.get?_empty] at h; cases h
  | some b =>
      rw [hget, Option.getD_some] at h
      rcases OrderedDict.get?_of_touch hget with ⟨hq, rfl⟩ | hold
      · rw [OrderedDict.get?_moveToEnd, OrderedDict.get?_set] at h
        split at h
        · rename_i hk
          exact Or.inl ⟨hq.symm, hk.symm, (Option.some.inj h).symm⟩
        · rw [hq] at h
          exact Or.inr h
      · right
        rw [Manager.buffer, hold]
        exact h

/-- The entries are filed under the peer and the key of their observation. -/
def WellFiled (m : Manager φ) : Prop :=
  ∀ peerId key entry, (m.buffer peerId).get? key = some entry →
    entry.1.peerId = peerId ∧ orderKey entry.1 = key

theorem WellFiled.congr {m m' : Manager φ} (h : WellFiled m)
    (hm : m'.reorderBuffer = m.reorderBuffer) : WellFiled m' := fun peerId key entry hget => by
  rw [buffer_congr hm] at hget
  exact h peerId key entry hget

theorem WellFiled.pop (h : WellFiled m) (peerId : String) (key : Key) :
    WellFiled (m.pop peerId key) := fun q k entry hget => by
  rw [get?_buffer_pop] at hget
  split at hget
  · cases hget
  · exact h q k entry hget

theorem WellFiled.restore {peerId : String} {key : Key} {entry : Waiting φ} (h : WellFiled m)
    (hentry : entry.1.peerId = peerId ∧ orderKey entry.1 = key) :
    WellFiled (m.restore peerId key entry) := fun q k e hget => by
  rw [get?_buffer_restore] at hget
  split at hget
  · rename_i hk
    obtain ⟨rfl, rfl⟩ := hk
    rw [← Option.some.inj hget]
    exact hentry
  · exact h q k e hget

theorem WellFiled.hold (h : WellFiled m) (c : Call φ) : WellFiled (m.hold cfg c) :=
  fun q k entry hget => by
    rcases get?_buffer_hold hget with ⟨rfl, rfl, rfl⟩ | hget
    · exact ⟨rfl, rfl⟩
    · exact h q k entry hget

end Perpetua.Transition

import Mathlib.Order.Basic
import Mathlib.Order.Lattice
import Perpetua.Lib.Machine

/-!
# High-water marks

A mark that only rises, and the values emitted on the way: each above the mark before it and above
those emitted earlier, none above the mark after it.
-/

namespace HighWater

variable {α : Type*} [Preorder α]

/-- The mark goes from `w` up to `w'` and emits `l` on the way. -/
structure Rises (w : α) (l : List α) (w' : α) : Prop where
  le : w ≤ w'
  sorted : l.Pairwise (· < ·)
  above : ∀ a ∈ l, w < a
  below : ∀ a ∈ l, a ≤ w'

theorem Rises.refl (w : α) : Rises w [] w where
  le := le_rfl
  sorted := List.Pairwise.nil
  above := List.forall_mem_nil _
  below := List.forall_mem_nil _

/-- The mark may rise without emitting anything. -/
theorem Rises.silent {w w' : α} (h : w ≤ w') : Rises w [] w' :=
  { Rises.refl w with le := h, below := List.forall_mem_nil _ }

theorem Rises.emit {w a : α} (h : w < a) : Rises w [a] a where
  le := h.le
  sorted := List.pairwise_singleton _ _
  above := by rintro b hb; rwa [List.mem_singleton.mp hb]
  below := by rintro b hb; rw [List.mem_singleton.mp hb]

theorem Rises.append {w w' w'' : α} {l l' : List α} (h : Rises w l w') (h' : Rises w' l' w'') :
    Rises w (l ++ l') w'' where
  le := h.le.trans h'.le
  sorted := List.pairwise_append.mpr
    ⟨h.sorted, h'.sorted, fun a ha b hb => (h.below a ha).trans_lt (h'.above b hb)⟩
  above := by
    intro a ha
    rcases List.mem_append.mp ha with ha | ha
    · exact h.above a ha
    · exact h.le.trans_lt (h'.above a ha)
  below := by
    intro a ha
    rcases List.mem_append.mp ha with ha | ha
    · exact (h.below a ha).trans h'.le
    · exact h'.below a ha

section Runs

variable {σ ℓ : Type*} {step : σ → ℓ → σ} {out : σ → ℓ → List α} (mark : σ → α)

/-- If every step raises the mark, so does the run. -/
theorem rises_run {s : σ} {ls : List ℓ}
    (h : Machine.Along step (fun s l => Rises (mark s) (out s l) (mark (step s l))) s ls) :
    Rises (mark s) (Machine.outputs step out s ls) (mark (Machine.run step s ls)) := by
  induction ls generalizing s with
  | nil => exact Rises.refl _
  | cons l ls ih => exact h.1.append (ih h.2)

end Runs

end HighWater

import Mathlib.Data.List.Range

/-!
# Bounded retries

A loop that makes at most `n` attempts and goes on as long as an attempt asks for another one. The
outcomes of the attempts are a tape that is read from its place `i` on.
-/

namespace Retry

variable {α : Type*} (again : α → Bool) (tape : ℕ → α)

/-- The attempts that are made, in order. -/
def made : (n i : ℕ) → List α
  | 0, _ => []
  | n + 1, i => if again (tape i) then tape i :: made n (i + 1) else [tape i]

/-- The attempt `j` places further is the last one. -/
def Last (n i j : ℕ) : Prop :=
  j < n ∧ (∀ k < j, again (tape (i + k)) = true) ∧ (j + 1 = n ∨ again (tape (i + j)) = false)

variable {again tape}

theorem Last.succ {n i j : ℕ} (h : Last again tape n (i + 1) j) (hi : again (tape i) = true) :
    Last again tape (n + 1) i (j + 1) := by
  obtain ⟨hj, hbefore, hlast⟩ := h
  refine ⟨Nat.succ_lt_succ hj, ?_, ?_⟩
  · intro k hk
    cases k with
    | zero => exact hi
    | succ k =>
        have := hbefore k (Nat.lt_of_succ_lt_succ hk)
        rwa [Nat.add_assoc, Nat.add_comm 1] at this
  · rcases hlast with h | h
    · exact .inl (by omega)
    · right
      rwa [Nat.add_assoc, Nat.add_comm 1] at h

theorem Last.unique {n i j k : ℕ} (hj : Last again tape n i j) (hk : Last again tape n i k) :
    j = k := by
  rcases lt_trichotomy j k with h | h | h
  · rcases hj.2.2 with he | he
    · exact absurd hk.1 (by omega)
    · exact absurd (hk.2.1 j h) (by simp [he])
  · exact h
  · rcases hk.2.2 with he | he
    · exact absurd hj.1 (by omega)
    · exact absurd (hj.2.1 k h) (by simp [he])

/-- The attempts made are the ones up to the last. -/
theorem exists_last (again : α → Bool) (tape : ℕ → α) {n : ℕ} (hn : 0 < n) (i : ℕ) :
    ∃ j, Last again tape n i j ∧
      made again tape n i = (List.range (j + 1)).map fun k => tape (i + k) := by
  induction n generalizing i with
  | zero => exact absurd hn (Nat.lt_irrefl 0)
  | succ n ih =>
      cases hi : again (tape i) with
      | false => exact ⟨0, ⟨hn, by simp, .inr hi⟩, by simp [made, hi]⟩
      | true =>
          rcases Nat.eq_zero_or_pos n with rfl | hpos
          · exact ⟨0, ⟨hn, by simp, .inl rfl⟩, by simp [made, hi]⟩
          · obtain ⟨j, hlast, hmade⟩ := ih hpos (i + 1)
            refine ⟨j + 1, hlast.succ hi, ?_⟩
            rw [made, if_pos hi, hmade, List.range_succ_eq_map (n := j + 1)]
            simp [Function.comp_def, Nat.add_assoc, Nat.add_comm 1]

end Retry

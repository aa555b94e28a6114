import Mathlib.Data.List.Basic

/-!
# Computations that may fail

What a successful run of a computation in `Except` says about its parts.
-/

universe u

namespace Except

variable {ε α : Type*} {β γ : Type u}

theorem bind_eq_ok {x : Except ε γ} {f : γ → Except ε β} {b : β} :
    x >>= f = .ok b ↔ ∃ c, x = .ok c ∧ f c = .ok b := by
  cases x with
  | error e => exact ⟨nofun, nofun⟩
  | ok c => exact ⟨fun h => ⟨c, rfl, h⟩, fun ⟨_, h, hf⟩ => by cases h; exact hf⟩

theorem bind_eq_error {x : Except ε γ} {f : γ → Except ε β} {e : ε} :
    x >>= f = .error e ↔ x = .error e ∨ ∃ c, x = .ok c ∧ f c = .error e := by
  cases x with
  | error e' =>
      constructor
      · exact fun h => .inl (by cases h; rfl)
      · rintro (h | ⟨c, h, -⟩)
        · cases h
          rfl
        · cases h
  | ok c =>
      constructor
      · exact fun h => .inr ⟨c, rfl, h⟩
      · rintro (h | ⟨c', h, hf⟩)
        · cases h
        · cases h
          exact hf

/-- A check that raises has been passed. -/
theorem check_eq_ok {c : Prop} [Decidable c] {e : ε} {x : Except ε β} {b : β} :
    (if c then .error e else x) = .ok b ↔ ¬c ∧ x = .ok b := by
  split
  · rename_i h
    exact ⟨nofun, fun hx => absurd h hx.1⟩
  · rename_i h
    exact ⟨fun hx => ⟨h, hx⟩, fun hx => hx.2⟩

/-- A check raises no other error. -/
theorem check_ne_error {c : Prop} [Decidable c] {e k : ε} {x : Except ε β} (he : e ≠ k)
    (hx : x ≠ .error k) : (if c then .error e else x) ≠ .error k := by
  split
  · exact fun h => he (Except.error.inj h)
  · exact hx

/-- The loop rule: `I l b` relates the items behind the loop to its accumulator. -/
theorem foldlM_induction {f : β → α → Except ε β} {I : List α → β → Prop}
    (hstep : ∀ l a b b', I l b → f b a = .ok b' → I (l ++ [a]) b')
    {l m : List α} {b r : β} (hb : I l b) (h : m.foldlM f b = .ok r) : I (l ++ m) r := by
  induction m generalizing l b with
  | nil =>
      cases h
      rwa [List.append_nil]
  | cons a m ih =>
      rw [List.foldlM_cons, bind_eq_ok] at h
      obtain ⟨b', ha, hm⟩ := h
      have := ih (hstep _ _ _ _ hb ha) hm
      rwa [List.append_assoc] at this

/-- The loop rule for a property of the accumulator alone. -/
theorem foldlM_invariant {f : β → α → Except ε β} {I : β → Prop}
    (hstep : ∀ b a b', I b → f b a = .ok b' → I b') {l : List α} {b r : β} (hb : I b)
    (h : l.foldlM f b = .ok r) : I r :=
  foldlM_induction (I := fun _ => I) (fun _ a b b' => hstep b a b') (l := []) hb h

end Except

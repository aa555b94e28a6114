import Mathlib.Algebra.Field.Rat
import Mathlib.Algebra.Order.Ring.Rat
import Perpetua.Lib.Json

/-!
# Python numbers as a parameter

Code that computes with floats is modelled over any type with their operations. No law is assumed,
so a rounding arithmetic is an instance; the rationals are the exact one.
-/

/-- What Python's `int` and `float` offer to arithmetic. -/
class PyReal (φ : Type*) extends Add φ, Sub φ, Mul φ, Div φ, LE φ, LT φ, IntCast φ where
  decLE : DecidableLE φ
  decLT : DecidableLT φ
  /-- The built-in `sum`, whose rounding is not that of repeated addition. -/
  sum : List φ → φ

/-- How numbers are printed. -/
class PyReal.Text (φ : Type*) where
  repr : φ → Json.Number
  /-- The format `.2f`. -/
  fixed2 : φ → String

namespace PyReal

variable {φ : Type*} [PyReal φ]

instance : DecidableLE φ := decLE

instance : DecidableLT φ := decLT

/-- `max(a, b)`: the first of the two unless the second is larger. -/
def max (a b : φ) : φ := if a < b then b else a

/-- What readings of a clock satisfy, rounded or not: they are ordered, an age only grows, and a
reading is not old when it is made. -/
class Clock (φ : Type*) [PyReal φ] : Prop where
  le_refl : ∀ a : φ, a ≤ a
  le_of_lt : ∀ {a b : φ}, a < b → a ≤ b
  le_of_not_lt : ∀ {a b : φ}, ¬ a < b → b ≤ a
  age_lt : ∀ {a b c d : φ}, a ≤ b → b - c < d → a - c < d
  age_self : ∀ (a : φ) (n : ℤ), 0 < n → a - a < (n : φ)

/-- What a vote relies on, rounded or not: the order is transitive, and a zero adds nothing to a
sum. -/
class Voting (φ : Type*) [PyReal φ] : Prop where
  lt_trans : ∀ {a b c : φ}, a < b → b < c → a < c
  sum_zero : ∀ l l' : List φ, sum (l ++ ((0 : ℤ) : φ) :: l') = sum (l ++ l')

/-- Exact arithmetic. -/
instance exact : PyReal ℚ where
  decLE := inferInstance
  decLT := inferInstance
  sum := List.sum

theorem max_exact (a b : ℚ) : PyReal.max a b = Max.max a b := by
  unfold PyReal.max
  split
  · rename_i h; exact (max_eq_right h.le).symm
  · rename_i h; exact (max_eq_left (not_lt.mp h)).symm

instance exactClock : Clock ℚ where
  le_refl := le_refl
  le_of_lt := le_of_lt
  le_of_not_lt := le_of_not_gt
  age_lt hab h := lt_of_le_of_lt (sub_le_sub_right hab _) h
  age_self a n hn := by
    rw [sub_self]
    exact Rat.intCast_pos.mpr hn

instance exactVoting : Voting ℚ where
  lt_trans := lt_trans
  sum_zero l l' := by
    change List.sum _ = List.sum _
    rw [List.sum_append, List.sum_append, List.sum_cons, Int.cast_zero, zero_add]

/-! ## Votes -/

section Votes

/-- A sum in which some terms have one value and the others are zero. -/
theorem sum_map_of_zeros [Voting φ] {α : Type*} {p : α → Prop} [DecidablePred p] {f : α → φ} {c : φ}
    {l : List α} (hin : ∀ a ∈ l, p a → f a = c) (hout : ∀ a ∈ l, ¬ p a → f a = ((0 : ℤ) : φ)) :
    sum (l.map f) = sum (List.replicate (l.countP p) c) := by
  have hprefix : ∀ before, sum (before ++ l.map f) =
      sum (before ++ List.replicate (l.countP p) c) := by
    induction l with
    | nil => exact fun before => rfl
    | cons a l ih =>
        intro before
        have ih := ih (fun b hb => hin b (List.mem_cons_of_mem _ hb))
          (fun b hb => hout b (List.mem_cons_of_mem _ hb))
        by_cases hp : p a
        · have hcount : (a :: l).countP p = l.countP p + 1 :=
            List.countP_cons_of_pos (by simpa using hp)
          rw [List.map_cons, hin a List.mem_cons_self hp, hcount, List.replicate_succ,
            ← List.singleton_append, ← List.append_assoc, ih (before ++ [c]), List.append_assoc,
            List.singleton_append]
        · have hcount : (a :: l).countP p = l.countP p :=
            List.countP_cons_of_neg (by simpa using hp)
          rw [List.map_cons, hout a List.mem_cons_self hp, Voting.sum_zero, hcount, ih before]
  exact hprefix []

theorem max_of_not_lt {a b : φ} (h : ¬ a < b) : PyReal.max a b = a := if_neg h

theorem foldl_max_of_max {z : φ} {l : List φ} (h : ∀ v ∈ l, PyReal.max z v = z) :
    l.foldl PyReal.max z = z := by
  induction l with
  | nil => rfl
  | cons v l ih =>
      rw [List.foldl_cons, h v List.mem_cons_self]
      exact ih fun w hw => h w (List.mem_cons_of_mem _ hw)

theorem foldl_max_of_not_lt {z : φ} {l : List φ} (h : ∀ v ∈ l, ¬ z < v) :
    l.foldl PyReal.max z = z :=
  foldl_max_of_max fun v hv => max_of_not_lt (h v hv)

/-- The maximum over a list in which one value alone is above the floor. -/
theorem foldl_max_of_lone [Voting φ] {z p : φ} {l : List φ} (hp : p ∈ l)
    (h : ∀ v ∈ l, v = p ∨ ¬ z < v) : l.foldl PyReal.max z = PyReal.max z p := by
  by_cases hpos : z < p
  · have hmax : PyReal.max z p = p := if_pos hpos
    -- nothing in the list is above `p` once it is reached
    have hkept : ∀ v ∈ l, PyReal.max p v = p := by
      intro v hv
      rcases h v hv with rfl | hv
      · exact ite_self _
      · exact max_of_not_lt fun hpv => hv (Voting.lt_trans hpos hpv)
    rw [hmax]
    induction l with
    | nil => cases hp
    | cons v l ih =>
        rw [List.foldl_cons]
        rcases h v List.mem_cons_self with rfl | hv
        · rw [hmax]
          exact foldl_max_of_max fun w hw => hkept w (List.mem_cons_of_mem _ hw)
        · have hne : p ≠ v := fun hpv => hv (hpv ▸ hpos)
          rw [max_of_not_lt hv]
          exact ih ((List.mem_cons.mp hp).resolve_left hne)
            (fun w hw => h w (List.mem_cons_of_mem _ hw))
            fun w hw => hkept w (List.mem_cons_of_mem _ hw)
  · rw [max_of_not_lt hpos]
    refine foldl_max_of_not_lt fun v hv => ?_
    rcases h v hv with rfl | hv
    · exact hpos
    · exact hv

end Votes

end PyReal

import Mathlib.Algebra.Order.Floor.Ring
import Mathlib.Algebra.Order.Field.Basic
import Mathlib.Tactic.Linarith

/-!
# Rounding half to even

The nearest integer, and the nearest decimal with so many digits; the even one of two that are as
near.
-/

namespace HalfEven

variable {α : Type*} [Field α] [LinearOrder α] [FloorRing α]

/-- The nearest integer. -/
def round (x : α) : ℤ :=
  if 2 * Int.fract x < 1 then ⌊x⌋
  else if 1 < 2 * Int.fract x then ⌊x⌋ + 1
  else if ⌊x⌋ % 2 = 0 then ⌊x⌋ else ⌊x⌋ + 1

/-- The nearest decimal with so many digits after the point. -/
def roundTo (digits : ℕ) (x : α) : α := (round (x * 10 ^ digits) : α) / 10 ^ digits

theorem floor_le_round (x : α) : ⌊x⌋ ≤ round x := by
  unfold round
  split_ifs <;> omega

theorem round_le_floor (x : α) : round x ≤ ⌊x⌋ + 1 := by
  unfold round
  split_ifs <;> omega

variable [IsStrictOrderedRing α]

theorem round_intCast (n : ℤ) : round (n : α) = n := by
  rw [round, if_pos (by simp), Int.floor_intCast]

theorem round_mono {x y : α} (h : x ≤ y) : round x ≤ round y := by
  rcases (Int.floor_le_floor h).lt_or_eq with hlt | heq
  · exact (round_le_floor x).trans (hlt.trans_le (floor_le_round y))
  · have hfract : Int.fract x ≤ Int.fract y := by
      rw [← Int.self_sub_floor, ← Int.self_sub_floor, heq]
      exact sub_le_sub_right h _
    unfold round
    rw [heq]
    split_ifs <;> first | omega | (exfalso; linarith)

theorem roundTo_mono (digits : ℕ) {x y : α} (h : x ≤ y) : roundTo digits x ≤ roundTo digits y := by
  have hpos : (0 : α) < 10 ^ digits := pow_pos (by norm_num) digits
  have hround := round_mono (mul_le_mul_of_nonneg_right h hpos.le)
  exact div_le_div_of_nonneg_right (Int.cast_le.mpr hround) hpos.le

theorem roundTo_intCast (digits : ℕ) (n : ℤ) : roundTo digits (n : α) = n := by
  have hpos : (0 : α) < 10 ^ digits := pow_pos (by norm_num) digits
  have hcast : (n : α) * 10 ^ digits = ((n * 10 ^ digits : ℤ) : α) := by push_cast; rfl
  rw [roundTo, hcast, round_intCast, ← hcast, mul_div_cancel_right₀ _ hpos.ne']

end HalfEven

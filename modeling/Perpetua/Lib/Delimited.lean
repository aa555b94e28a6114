import Mathlib.Algebra.GroupWithZero.Nat
import Mathlib.Data.List.Basic

/-!
# Delimited fields

Fields joined by a delimiter can be told apart as long as as many fields are expected: a delimiter
inside of a field would be one too many.
-/

namespace Delimited

variable {α : Type*} [DecidableEq α] {x : α}

/-- The fields, with a delimiter between any two. -/
def join (x : α) (fields : List (List α)) : List α := [x].intercalate fields

theorem count_join (x : α) (fields : List (List α)) :
    (join x fields).count x + 1 = (fields.map (List.count x)).sum + max 1 fields.length := by
  induction fields with
  | nil => rfl
  | cons f fields ih =>
      cases fields with
      | nil => simp [join]
      | cons g fields =>
          rw [join, List.intercalate_cons_cons, List.count_append, List.count_append, ← join,
            List.map_cons, List.sum_cons, List.length_cons]
          rw [List.length_cons] at ih ⊢
          simp only [List.count_singleton_self]
          omega

theorem notMem_iff_count {fields : List (List α)} :
    (∀ f ∈ fields, x ∉ f) ↔ (fields.map (List.count x)).sum = 0 := by
  induction fields with
  | nil => simp
  | cons f fields ih =>
      rw [List.forall_mem_cons, ih, List.map_cons, List.sum_cons, Nat.add_eq_zero_iff,
        List.count_eq_zero]

/-- As many fields as those without a delimiter, and the same text: the same fields. -/
theorem join_inj {as bs : List (List α)} (hlength : as.length = bs.length)
    (has : ∀ f ∈ as, x ∉ f) (h : join x as = join x bs) : as = bs := by
  have hcount := congrArg (fun t => t.count x + 1) h
  simp only [count_join] at hcount
  rw [notMem_iff_count.mp has, hlength] at hcount
  have hbs : ∀ f ∈ bs, x ∉ f := notMem_iff_count.mpr (by omega)
  cases as with
  | nil => exact (List.length_eq_zero_iff.mp hlength.symm).symm
  | cons a as =>
      have hne : bs ≠ [] := List.ne_nil_of_length_eq_add_one hlength.symm
      rw [← List.splitOn_intercalate x has (List.cons_ne_nil _ _), ← List.splitOn_intercalate x hbs hne]
      exact congrArg _ h

end Delimited

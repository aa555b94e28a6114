import Mathlib.Data.List.Dedup
import Mathlib.Data.List.DropRight

/-!
# Lists in the order of the last use

What a history of uses says about the order in which its keys were used last, and the bounded list
that is kept up use by use.
-/

namespace Recency

variable {κ ν : Type*} [DecidableEq κ]

/-- The last use of every key, in the order of these uses. -/
def lastUses : List (κ × ν) → List (κ × ν)
  | [] => []
  | use :: uses => if use.1 ∈ uses.map Prod.fst then lastUses uses else use :: lastUses uses

/-- Move a key to the end, with its new use. -/
def refresh (l : List (κ × ν)) (use : κ × ν) : List (κ × ν) := l.filter (·.1 ≠ use.1) ++ [use]

theorem map_fst_lastUses (uses : List (κ × ν)) :
    (lastUses uses).map Prod.fst = (uses.map Prod.fst).dedup := by
  induction uses with
  | nil => rfl
  | cons use uses ih =>
      rw [lastUses, List.map_cons]
      split
      · rename_i h
        rw [List.dedup_cons_of_mem h, ih]
      · rename_i h
        rw [List.dedup_cons_of_notMem h, List.map_cons, ih]

theorem nodup_lastUses (uses : List (κ × ν)) : ((lastUses uses).map Prod.fst).Nodup := by
  rw [map_fst_lastUses]
  exact List.nodup_dedup _

theorem lastUses_append_singleton (uses : List (κ × ν)) (use : κ × ν) :
    lastUses (uses ++ [use]) = refresh (lastUses uses) use := by
  induction uses with
  | nil => rfl
  | cons first uses ih =>
      have hlater : first.1 ∈ (uses ++ [use]).map Prod.fst ↔
          first.1 ∈ uses.map Prod.fst ∨ first.1 = use.1 := by simp
      rw [List.cons_append, lastUses, ih, lastUses]
      by_cases hmem : first.1 ∈ uses.map Prod.fst
      · rw [if_pos (hlater.mpr (Or.inl hmem)), if_pos hmem]
      · rw [if_neg hmem]
        by_cases heq : first.1 = use.1
        · rw [if_pos (hlater.mpr (Or.inr heq)), refresh, refresh,
            List.filter_cons_of_neg (by simp [heq])]
        · rw [if_neg fun h => (hlater.mp h).elim hmem heq, refresh, refresh,
            List.filter_cons_of_pos (by simp [heq]), List.cons_append]

/-! ## Bounded lists -/

theorem length_filter_ne {l : List (κ × ν)} (h : (l.map Prod.fst).Nodup) (k : κ) :
    l.length ≤ (l.filter (·.1 ≠ k)).length + 1 := by
  induction l with
  | nil => simp
  | cons e l ih =>
      rw [List.map_cons, List.nodup_cons] at h
      by_cases he : e.1 = k
      · have hall : ∀ e' ∈ l, decide (e'.1 ≠ k) = true := by
          intro e' hmem
          have hne : e'.1 ≠ k := fun hk => h.1 (List.mem_map.mpr ⟨e', hmem, hk.trans he.symm⟩)
          simp [hne]
        rw [List.filter_cons_of_neg (by simp [he]), List.filter_eq_self.mpr hall, List.length_cons]
      · rw [List.filter_cons_of_pos (by simp [he]), List.length_cons, List.length_cons]
        exact Nat.succ_le_succ (ih h.2)

theorem rtake_append_of_le {α : Type*} {l m : List α} {n : ℕ} (h : n ≤ m.length) :
    (l ++ m).rtake n = m.rtake n := by
  rw [List.rtake, List.rtake, List.length_append, List.drop_append]
  have hdrop : l.drop (l.length + m.length - n) = [] := List.drop_eq_nil_of_le (by omega)
  have hsub : l.length + m.length - n - l.length = m.length - n := by omega
  rw [hdrop, hsub, List.nil_append]

/-- What a bounded list has dropped before does not matter to it. -/
theorem rtake_refresh_rtake {l : List (κ × ν)} (h : (l.map Prod.fst).Nodup) (n : ℕ) (use : κ × ν) :
    (refresh (l.rtake n) use).rtake n = (refresh l use).rtake n := by
  rcases Nat.lt_or_ge n l.length with hlt | hle
  · have hsplit : l = l.take (l.length - n) ++ l.rtake n := (List.take_append_drop _ _).symm
    have hkept : ((l.rtake n).map Prod.fst).Nodup :=
      h.sublist ((List.drop_sublist _ _).map Prod.fst)
    have hlen : (l.rtake n).length = n := by
      rw [List.rtake, List.length_drop]
      omega
    have hlong := length_filter_ne hkept use.1
    have hfull : n ≤ (refresh (l.rtake n) use).length := by
      rw [refresh, List.length_append, List.length_singleton]
      omega
    conv_rhs => rw [hsplit, refresh, List.filter_append, List.append_assoc]
    exact (rtake_append_of_le hfull).symm
  · have hwhole : l.rtake n = l := by rw [List.rtake, Nat.sub_eq_zero_of_le hle, List.drop_zero]
    rw [hwhole]

end Recency

import Mathlib.Data.List.Sort
import Mathlib.Order.Lattice

/-!
# Ranking by a score

`sorted` with `reverse=True`: the highest score first, and equal scores in the order in which they
came. A loop that goes through candidates may also keep one whenever its score is above the best score
so far.
-/

namespace Ranking

variable {α β κ : Type*} [LinearOrder κ] {score : α → κ} {l ranked : List α}

/-- `sorted(l, key=score, reverse=True)`. -/
def byScore (score : α → κ) (l : List α) : List α := l.mergeSort fun a b => score b ≤ score a

/-- The elements of a list, ranked by their scores, with ties in the order of the list. -/
structure Ranks (score : α → κ) (l ranked : List α) : Prop where
  perm : ranked.Perm l
  descending : ranked.Pairwise fun a b => score b ≤ score a
  ties : ∀ s, ranked.filter (score · = s) = l.filter (score · = s)

theorem ranks_byScore (score : α → κ) (l : List α) : Ranks score l (byScore score l) := by
  have htrans : ∀ a b c : α, decide (score b ≤ score a) → decide (score c ≤ score b) →
      decide (score c ≤ score a) := by
    intro a b c hab hbc
    simp only [decide_eq_true_eq] at *
    exact le_trans hbc hab
  have htotal : ∀ a b : α, decide (score b ≤ score a) || decide (score a ≤ score b) := by
    intro a b
    simp only [Bool.or_eq_true, decide_eq_true_eq]
    exact le_total _ _
  have hperm : (byScore score l).Perm l := List.mergeSort_perm _ _
  refine ⟨hperm, ?_, fun s => ?_⟩
  · exact (List.pairwise_mergeSort htrans htotal l).imp fun h => of_decide_eq_true h
  · have hties : (l.filter (score · = s)).Pairwise fun a b => decide (score b ≤ score a) := by
      refine List.Pairwise.imp_of_mem ?_ (List.pairwise_of_forall (R := fun _ _ => True) fun _ _ => trivial)
      intro a b ha hb _
      have ha' := of_decide_eq_true (List.mem_filter.mp ha).2
      have hb' := of_decide_eq_true (List.mem_filter.mp hb).2
      exact decide_eq_true (by rw [ha', hb'])
    have hsub := (List.sublist_mergeSort htrans htotal hties List.filter_sublist).filter (score · = s)
    rw [List.filter_filter] at hsub
    simp only [Bool.and_self] at hsub
    exact (hsub.eq_of_length (hperm.filter _).length_eq.symm).symm

/-- Scores that already fall are left as they are. -/
theorem byScore_of_descending (h : l.Pairwise fun a b => score b ≤ score a) : byScore score l = l :=
  List.mergeSort_of_pairwise (h.imp fun h => decide_eq_true h)

/-- Ranking commutes with a map that keeps the scores. -/
theorem map_byScore {score' : β → κ} {f : α → β} (h : ∀ a ∈ l, score' (f a) = score a) :
    (byScore score l).map f = byScore score' (l.map f) := by
  refine List.map_mergeSort fun a ha b hb => ?_
  rw [h a ha, h b hb]

end Ranking

namespace FirstBest

variable {α β γ : Type*} [LinearOrder β]

/-- The better one of two candidates with their scores; the earlier one if they are equal. -/
def better (best found : α × β) : α × β := if best.2 < found.2 then found else best

/-- The loop, over the candidates that `found` makes of a list. -/
def firstBest (found : γ → α × β) (l : List γ) (start : α × β) : α × β :=
  l.foldl (fun best c => better best (found c)) start

theorem le_better_left (best found : α × β) : best.2 ≤ (better best found).2 := by
  rw [better]
  split
  · rename_i hlt
    exact le_of_lt hlt
  · exact le_refl _

theorem le_better_right (best found : α × β) : found.2 ≤ (better best found).2 := by
  rw [better]
  split
  · exact le_refl _
  · rename_i hlt
    exact le_of_not_gt hlt

variable (found : γ → α × β) (l : List γ) (start : α × β)

theorem start_le_firstBest : start.2 ≤ (firstBest found l start).2 := by
  induction l generalizing start with
  | nil => exact le_refl _
  | cons c l ih => exact le_trans (le_better_left start (found c)) (ih _)

variable {l} in
/-- No candidate is above the result. -/
theorem le_firstBest {c : γ} (hc : c ∈ l) : (found c).2 ≤ (firstBest found l start).2 := by
  induction l generalizing start with
  | nil => cases hc
  | cons d l ih =>
      rcases List.mem_cons.mp hc with rfl | hc
      · exact le_trans (le_better_right start (found c)) (start_le_firstBest found l _)
      · exact ih _ hc

/-- The result is a candidate above the start, or the start. -/
theorem firstBest_cases : firstBest found l start = start ∨
    ∃ c ∈ l, firstBest found l start = found c ∧ start.2 < (found c).2 := by
  induction l generalizing start with
  | nil => exact Or.inl rfl
  | cons d l ih =>
      change firstBest found l (better start (found d)) = start ∨
        ∃ c ∈ d :: l, firstBest found l (better start (found d)) = found c ∧ start.2 < (found c).2
      rcases ih (better start (found d)) with h | ⟨c, hc, h, hlt⟩
      · rw [h, better]
        split
        · rename_i hlt
          exact Or.inr ⟨d, List.mem_cons_self, rfl, hlt⟩
        · exact Or.inl rfl
      · exact Or.inr ⟨c, List.mem_cons_of_mem d hc, h, lt_of_le_of_lt (le_better_left _ _) hlt⟩

end FirstBest

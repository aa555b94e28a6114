import Mathlib.Algebra.BigOperators.Group.List.Basic
import Mathlib.Algebra.Order.BigOperators.Group.Finset
import Mathlib.Data.Finset.Card
import Mathlib.Data.Finset.Dedup
import Mathlib.Data.List.Dedup
import Mathlib.Data.List.Induction
import Mathlib.Data.List.Nodup
import Perpetua.Lib.OrderedDict

/-!
# Distinct values, running maxima and sums under keys

Counting the distinct values of a list; the dictionary of the largest value that each key has had so
far, with a floor for every key; and a table of entries, each with a key, a value and an amount, in
which a contribution adds its amount to the entry of its key, or makes a new entry at the end.
-/

namespace KeyedMaxima

/-! ## Distinct values -/

section Distinct

variable {α β γ : Type*}

theorem two_le_length_dedup [DecidableEq α] {l : List α} :
    2 ≤ l.dedup.length ↔ ∃ a ∈ l, ∃ b ∈ l, a ≠ b := by
  rw [← List.card_toFinset, Nat.succ_le_iff, Finset.one_lt_card]
  simp only [List.mem_toFinset]

/-- If two elements differ under `f` and two differ under `g`, then two differ under both. -/
theorem exists_differ_both {l : List α} {f : α → β} {g : α → γ} (hf : ∃ a ∈ l, ∃ b ∈ l, f a ≠ f b)
    (hg : ∃ a ∈ l, ∃ b ∈ l, g a ≠ g b) : ∃ a ∈ l, ∃ b ∈ l, f a ≠ f b ∧ g a ≠ g b := by
  obtain ⟨a, ha, b, hb, hab⟩ := hf
  by_cases hgab : g a = g b
  · -- some element differs from both under `g`, and from one of the two under `f`
    obtain ⟨c, hc, hca⟩ : ∃ c ∈ l, g c ≠ g a := by
      obtain ⟨c, hc, d, hd, hcd⟩ := hg
      by_cases h : g c = g a
      · exact ⟨d, hd, fun hda => hcd (h.trans hda.symm)⟩
      · exact ⟨c, hc, h⟩
    by_cases hfca : f c = f a
    · exact ⟨c, hc, b, hb, fun h => hab (hfca.symm.trans h), fun h => hca (h.trans hgab.symm)⟩
    · exact ⟨c, hc, a, ha, hfca, hca⟩
  · exact ⟨a, ha, b, hb, hab, hgab⟩

end Distinct

/-! ## The largest value of a key -/

variable {κ ν : Type*} [DecidableEq κ] [LinearOrder ν]

/-- The largest of the floor and of the values that `l` gives `k`. -/
def largest (floor : ν) (l : List (κ × ν)) (k : κ) : ν :=
  ((l.filter (·.1 = k)).map (·.2)).foldr max floor

theorem floor_le_largest (floor : ν) (l : List (κ × ν)) (k : κ) : floor ≤ largest floor l k := by
  unfold largest
  induction (l.filter (·.1 = k)).map (·.2) with
  | nil => exact le_rfl
  | cons v vs ih => exact ih.trans (le_max_right _ _)

theorem le_largest {floor : ν} {l : List (κ × ν)} {e : κ × ν} (he : e ∈ l) :
    e.2 ≤ largest floor l e.1 := by
  have hmem : e.2 ∈ (l.filter (·.1 = e.1)).map (·.2) :=
    List.mem_map_of_mem (List.mem_filter.mpr ⟨he, by simp⟩)
  unfold largest
  generalize (l.filter (·.1 = e.1)).map (·.2) = values at hmem ⊢
  induction values with
  | nil => cases hmem
  | cons v vs ih =>
      rcases List.mem_cons.mp hmem with h | h
      · rw [h]; exact le_max_left _ _
      · exact (ih h).trans (le_max_right _ _)

theorem largest_le {floor bound : ν} {l : List (κ × ν)} {k : κ} (hfloor : floor ≤ bound)
    (hl : ∀ e ∈ l, e.1 = k → e.2 ≤ bound) : largest floor l k ≤ bound := by
  have hvalues : ∀ v ∈ (l.filter (·.1 = k)).map (·.2), v ≤ bound := by
    intro v hv
    obtain ⟨e, he, rfl⟩ := List.mem_map.mp hv
    obtain ⟨he, hk⟩ := List.mem_filter.mp he
    exact hl e he (of_decide_eq_true hk)
  unfold largest
  generalize (l.filter (·.1 = k)).map (·.2) = values at hvalues ⊢
  induction values with
  | nil => exact hfloor
  | cons v vs ih =>
      exact max_le (hvalues v List.mem_cons_self)
        (ih fun v hv => hvalues v (List.mem_cons_of_mem _ hv))

/-- What is dominated key by key has no larger values. -/
theorem largest_le_of_dominated {floor : ν} {l l' : List (κ × ν)} {k : κ}
    (h : ∀ e ∈ l, e.1 = k → ∃ e' ∈ l', e'.1 = k ∧ e.2 ≤ e'.2) :
    largest floor l k ≤ largest floor l' k := by
  refine largest_le (floor_le_largest _ _ _) ?_
  intro e he hk
  obtain ⟨e', he', hk', hle⟩ := h e he hk
  exact hle.trans (hk' ▸ le_largest he')

theorem largest_append_singleton (floor : ν) (l : List (κ × ν)) (e : κ × ν) (k : κ) :
    largest floor (l ++ [e]) k =
      if e.1 = k then max (largest floor l k) e.2 else largest floor l k := by
  split
  · rename_i hk
    apply le_antisymm
    · refine largest_le ((floor_le_largest _ _ _).trans (le_max_left _ _)) ?_
      intro f hf hfk
      rcases List.mem_append.mp hf with hf | hf
      · exact (hfk ▸ le_largest hf).trans (le_max_left _ _)
      · rw [List.mem_singleton.mp hf]; exact le_max_right _ _
    · refine max_le (largest_le_of_dominated ?_) (hk ▸ le_largest (by simp))
      intro f hf hfk
      exact ⟨f, List.mem_append_left _ hf, hfk, le_rfl⟩
  · rename_i hk
    simp [largest, List.filter_append, hk]

/-! ## The dictionary of running maxima -/

/-- One pass over the entries that keeps the largest value of each key, not below the floor. -/
def runningMaxima (floor : ν) (l : List (κ × ν)) : List (κ × ν) :=
  l.foldl (fun m e => Entries.set m e.1 (max ((Entries.get? m e.1).getD floor) e.2)) []

theorem runningMaxima_append_singleton (floor : ν) (l : List (κ × ν)) (e : κ × ν) :
    runningMaxima floor (l ++ [e]) =
      Entries.set (runningMaxima floor l) e.1
        (max ((Entries.get? (runningMaxima floor l) e.1).getD floor) e.2) := by
  simp [runningMaxima]

theorem nodup_runningMaxima (floor : ν) (l : List (κ × ν)) :
    ((runningMaxima floor l).map Prod.fst).Nodup := by
  induction l using List.reverseRecOn with
  | nil => exact List.nodup_nil
  | append_singleton l e ih =>
      rw [runningMaxima_append_singleton]
      exact Entries.nodup_set ih _ _

theorem get?_runningMaxima (floor : ν) (l : List (κ × ν)) (k : κ) :
    Entries.get? (runningMaxima floor l) k =
      if k ∈ l.map Prod.fst then some (largest floor l k) else none := by
  induction l using List.reverseRecOn generalizing k with
  | nil => rfl
  | append_singleton l e ih =>
      have hfloor : ((Entries.get? (runningMaxima floor l) e.1).getD floor) = largest floor l e.1 := by
        rw [ih]
        split
        · rfl
        · rename_i hk
          have hnone : l.filter (·.1 = e.1) = [] := by
            refine List.filter_eq_nil_iff.mpr fun f hf hfk => hk ?_
            exact List.mem_map.mpr ⟨f, hf, of_decide_eq_true hfk⟩
          rw [largest, hnone]
          rfl
      rw [runningMaxima_append_singleton, Entries.get?_set, hfloor, largest_append_singleton, ih]
      by_cases hk : e.1 = k
      · rw [if_pos hk, if_pos hk, if_pos (by simp [hk]), hk]
      · have hmem : k ∈ (l ++ [e]).map Prod.fst ↔ k ∈ l.map Prod.fst := by
          rw [List.map_append, List.mem_append, List.map_singleton, List.mem_singleton]
          exact or_iff_left (Ne.symm hk)
        rw [if_neg hk, if_neg hk]
        exact if_congr hmem.symm rfl rfl

theorem mem_keys_runningMaxima {floor : ν} {l : List (κ × ν)} {k : κ} :
    k ∈ (runningMaxima floor l).map Prod.fst ↔ k ∈ l.map Prod.fst := by
  rw [← not_iff_not, ← Entries.get?_eq_none, get?_runningMaxima]
  split
  · rename_i hk; exact iff_of_false (Option.some_ne_none _) fun h => h hk
  · rename_i hk; exact ⟨fun _ => hk, fun _ => rfl⟩

/-! ## Their sum -/

section Sum

variable [AddCommMonoid ν]

/-- The sum of the running maxima, key by key. -/
theorem sum_runningMaxima (floor : ν) (l : List (κ × ν)) :
    ((runningMaxima floor l).map Prod.snd).sum =
      ∑ k ∈ (l.map Prod.fst).toFinset, largest floor l k := by
  have hkeys : (l.map Prod.fst).toFinset = ((runningMaxima floor l).map Prod.fst).toFinset := by
    ext k
    rw [List.mem_toFinset, List.mem_toFinset, mem_keys_runningMaxima]
  rw [hkeys, List.sum_toFinset _ (nodup_runningMaxima floor l), List.map_map]
  congr 1
  refine List.map_congr_left fun e he => ?_
  have hget := Entries.get?_of_mem (nodup_runningMaxima floor l) he
  rw [get?_runningMaxima] at hget
  split at hget
  · exact (Option.some.inj hget).symm
  · cases hget

variable [IsOrderedAddMonoid ν]

/-- With a floor that is not negative, dominating entries have no smaller sum. -/
theorem sum_runningMaxima_mono {floor : ν} {l l' : List (κ × ν)} (hfloor : 0 ≤ floor)
    (h : ∀ e ∈ l, ∃ e' ∈ l', e'.1 = e.1 ∧ e.2 ≤ e'.2) :
    ((runningMaxima floor l).map Prod.snd).sum ≤ ((runningMaxima floor l').map Prod.snd).sum := by
  have hkeys : (l.map Prod.fst).toFinset ⊆ (l'.map Prod.fst).toFinset := by
    intro k hk
    simp only [List.mem_toFinset, List.mem_map] at hk ⊢
    obtain ⟨e, he, rfl⟩ := hk
    obtain ⟨e', he', hk, -⟩ := h e he
    exact ⟨e', he', hk⟩
  rw [sum_runningMaxima, sum_runningMaxima]
  calc
    _ ≤ ∑ k ∈ (l.map Prod.fst).toFinset, largest floor l' k := by
        refine Finset.sum_le_sum fun k _ => largest_le_of_dominated fun e he hk => ?_
        obtain ⟨e', he', hk', hle⟩ := h e he
        exact ⟨e', he', hk'.trans hk, hle⟩
    _ ≤ _ := by
        refine Finset.sum_le_sum_of_subset_of_nonneg hkeys fun k _ _ => ?_
        exact hfloor.trans (floor_le_largest _ _ _)

end Sum

end KeyedMaxima

namespace KeyedSum

variable {κ ν μ : Type*} [DecidableEq κ] [AddCommMonoid μ]

def contribute (l : List (κ × ν × μ)) (c : κ × ν × μ) : List (κ × ν × μ) :=
  if c.1 ∈ l.map Prod.fst then
    l.map fun e => if e.1 = c.1 then (e.1, e.2.1, e.2.2 + c.2.2) else e
  else l ++ [c]

def contributeAll (l cs : List (κ × ν × μ)) : List (κ × ν × μ) := cs.foldl contribute l

/-- What is contributed under a key. -/
def total (cs : List (κ × ν × μ)) (k : κ) : μ := ((cs.filter (·.1 = k)).map (·.2.2)).sum

theorem total_append_singleton (cs : List (κ × ν × μ)) (c : κ × ν × μ) (k : κ) :
    total (cs ++ [c]) k = total cs k + if c.1 = k then c.2.2 else 0 := by
  rw [total, List.filter_append, List.map_append, List.sum_append, total]
  split
  · rename_i h
    simp [h]
  · rename_i h
    simp [h]

/-- Contributions under distinct keys add to the entries that are there, and the others follow. -/
theorem contributeAll_eq {l cs : List (κ × ν × μ)} (hcs : (cs.map Prod.fst).Nodup) :
    contributeAll l cs = l.map (fun e => (e.1, e.2.1, e.2.2 + total cs e.1)) ++
      cs.filter (·.1 ∉ l.map Prod.fst) := by
  induction cs using List.reverseRecOn with
  | nil => simp [contributeAll, total]
  | append_singleton cs c ih =>
      rw [List.map_append, List.nodup_append] at hcs
      obtain ⟨hcs, -, hnew⟩ := hcs
      have hkeys : (l.map fun e => (e.1, e.2.1, e.2.2 + total cs e.1)).map Prod.fst = l.map Prod.fst := by
        simp
      rw [contributeAll, List.foldl_concat, ← contributeAll, ih hcs, contribute, List.map_append,
        hkeys, List.filter_append]
      by_cases hc : c.1 ∈ l.map Prod.fst
      · have hrest : ∀ e ∈ cs.filter (·.1 ∉ l.map Prod.fst), ¬e.1 = c.1 := by
          intro e he heq
          rw [List.mem_filter, decide_eq_true_eq, heq] at he
          exact he.2 hc
        rw [if_pos (List.mem_append_left _ hc), List.map_append,
          List.map_congr_left fun e he => if_neg (hrest e he), List.map_id', List.map_map,
          List.filter_cons_of_neg (by simpa using hc), List.filter_nil, List.append_nil]
        congr 1
        refine List.map_congr_left fun e _ => ?_
        rw [Function.comp_apply, total_append_singleton]
        split
        · rename_i h
          rw [if_pos h.symm, add_assoc]
        · rename_i h
          rw [if_neg (Ne.symm h), add_zero]
      · have hcnew : c.1 ∉ l.map Prod.fst ++ (cs.filter (·.1 ∉ l.map Prod.fst)).map Prod.fst := by
          rw [List.mem_append, not_or]
          refine ⟨hc, fun hmem => ?_⟩
          obtain ⟨e, he, heq⟩ := List.mem_map.mp hmem
          exact hnew e.1 (List.mem_map_of_mem (List.mem_filter.mp he).1) c.1 (by simp) heq
        rw [if_neg hcnew, List.filter_cons_of_pos (by simpa using hc), List.filter_nil,
          List.append_assoc]
        congr 1
        refine List.map_congr_left fun e he => ?_
        have hne : ¬c.1 = e.1 := fun heq => hc (heq ▸ List.mem_map_of_mem he)
        rw [total_append_singleton, if_neg hne, add_zero]

/-- Contributions under distinct keys to an empty table are the table. -/
theorem contributeAll_nil {cs : List (κ × ν × μ)} (hcs : (cs.map Prod.fst).Nodup) :
    contributeAll [] cs = cs := by
  rw [contributeAll_eq hcs]
  simp

end KeyedSum

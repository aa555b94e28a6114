import Mathlib.Data.List.Infix

/-!
# Occurrences of a pattern

`in`, `count` and `replace` with the count 1 on Python's texts and bytes, for a pattern that is not empty.
-/

namespace Occurrences

variable {α : Type*} [DecidableEq α] {pat s a b : List α} {c : α}

/-- The occurrences behind the next elements, which an occurrence before them has used. -/
def countFrom (pat : List α) : ℕ → List α → ℕ
  | _, [] => 0
  | skip + 1, _ :: s => countFrom pat skip s
  | 0, c :: s => if pat <+: c :: s then countFrom pat (pat.length - 1) s + 1 else countFrom pat 0 s

/-- `s.count(pat)`. -/
def count (pat s : List α) : ℕ := countFrom pat 0 s

/-- What stands before and behind the first occurrence. -/
def cut (pat : List α) : List α → Option (List α × List α)
  | [] => none
  | c :: s =>
      if pat <+: c :: s then some ([], (c :: s).drop pat.length)
      else (cut pat s).map fun parts => (c :: parts.1, parts.2)

/-- `pat in s`. -/
def contains (pat s : List α) : Bool := (cut pat s).isSome

/-- `s.replace(pat, new, 1)`. -/
def replaceFirst (pat new s : List α) : List α :=
  match cut pat s with
  | some (a, b) => a ++ new ++ b
  | none => s

/-! ## One pattern -/

theorem count_cons_of_ne (d : α) (h : pat.head? ≠ some d) (hne : pat ≠ []) :
    count pat (d :: s) = count pat s := by
  refine if_neg fun hpre => ?_
  obtain ⟨p, t, rfl⟩ := List.exists_cons_of_ne_nil hne
  exact h (congrArg some (List.cons_prefix_cons.mp hpre).1)

theorem eq_of_cut (h : cut pat s = some (a, b)) : s = a ++ (pat ++ b) := by
  induction s generalizing a with
  | nil => cases h
  | cons c s ih =>
      rw [cut] at h
      split at h
      · rename_i hpre
        cases h
        obtain ⟨t, ht⟩ := hpre
        rw [← ht, List.drop_left, List.nil_append]
      · obtain ⟨parts, hparts, heq⟩ := Option.map_eq_some_iff.mp h
        cases heq
        rw [List.cons_append, ← ih hparts]

/-- Nothing before the first occurrence is one. -/
theorem count_of_cut (h : cut pat s = some (a, b)) : count pat a = 0 := by
  induction s generalizing a with
  | nil => cases h
  | cons c s ih =>
      rw [cut] at h
      split at h
      · cases h
        rfl
      · rename_i hpre
        obtain ⟨parts, hparts, heq⟩ := Option.map_eq_some_iff.mp h
        cases heq
        have hs : s = parts.1 ++ (pat ++ parts.2) := eq_of_cut hparts
        refine (if_neg fun hfirst => hpre (hfirst.trans ?_)).trans (ih hparts)
        rw [hs]
        exact List.prefix_append (c :: parts.1) _

theorem cut_eq_none_iff : cut pat s = none ↔ count pat s = 0 := by
  induction s with
  | nil => exact iff_of_true rfl rfl
  | cons c s ih =>
      rw [cut, count, countFrom]
      split
      · exact iff_of_false (Option.some_ne_none _) (Nat.succ_ne_zero _)
      · rw [Option.map_eq_none_iff]
        exact ih

theorem contains_eq_false_iff : contains pat s = false ↔ count pat s = 0 := by
  rw [contains, Option.isSome_eq_false_iff, Option.isNone_iff_eq_none, cut_eq_none_iff]

/-! ## Texts side by side -/

/-- No occurrence begins before the text and ends in it. -/
def Apart (pat b : List α) : Prop := ∀ u v, u ++ v = pat → u ≠ [] → v ≠ [] → ¬ v <+: b

omit [DecidableEq α] in
/-- A text that begins with an element that only an occurrence's first one may be. -/
theorem apart_cons (h : c ∉ pat.tail) : Apart pat (c :: b) := by
  rintro (_ | ⟨p, u⟩) (_ | ⟨d, v⟩) rfl hu hv hpre
  · exact hu rfl
  · exact hu rfl
  · exact hv rfl
  · rw [(List.cons_prefix_cons.mp hpre).1] at h
    exact h (List.mem_append_right u List.mem_cons_self)

omit [DecidableEq α] in
theorem prefix_append_iff (h : Apart pat b) (hne : a ≠ []) : pat <+: a ++ b ↔ pat <+: a := by
  constructor
  · rintro hpre
    rcases List.prefix_or_prefix_of_prefix hpre (List.prefix_append a b) with hfirst | ⟨v, hv⟩
    · exact hfirst
    · by_cases hvne : v = []
      · rw [← hv, hvne, List.append_nil]
      · rw [← hv] at hpre
        exact absurd ((List.prefix_append_right_inj a).mp hpre) (h a v hv hne hvne)
  · exact fun hpre => hpre.trans (List.prefix_append a b)

theorem countFrom_append (h : Apart pat b) (skip : ℕ) (hskip : skip ≤ a.length) :
    countFrom pat skip (a ++ b) = countFrom pat skip a + count pat b := by
  induction a generalizing skip with
  | nil =>
      rw [Nat.le_zero.mp hskip]
      exact (Nat.zero_add _).symm
  | cons c a ih =>
      cases skip with
      | succ skip => exact ih skip (Nat.le_of_succ_le_succ hskip)
      | zero =>
          have hpre := prefix_append_iff (a := c :: a) h (List.cons_ne_nil c a)
          rw [List.cons_append] at hpre ⊢
          rw [countFrom, countFrom]
          by_cases hfirst : pat <+: c :: a
          · have hlength := hfirst.length_le
            rw [List.length_cons] at hlength
            rw [if_pos (hpre.mpr hfirst), if_pos hfirst, ih _ (by omega)]
            omega
          · rw [if_neg (fun h => hfirst (hpre.mp h)), if_neg hfirst, ih 0 (Nat.zero_le _)]

theorem count_append (h : Apart pat b) : count pat (a ++ b) = count pat a + count pat b :=
  countFrom_append h 0 (Nat.zero_le _)

/-- Around an element that is in no occurrence. -/
theorem count_append_cons (hc : c ∉ pat) (hne : pat ≠ []) :
    count pat (a ++ c :: b) = count pat a + count pat b := by
  rw [count_append (apart_cons fun h => hc (List.mem_of_mem_tail h)),
    count_cons_of_ne c (fun h => hc (List.mem_of_mem_head? h)) hne]

/-- The first occurrence is the one behind a text without any. -/
theorem cut_append (hne : pat ≠ []) (h : Apart pat (pat ++ b)) (ha : count pat a = 0) :
    cut pat (a ++ (pat ++ b)) = some (a, b) := by
  induction a with
  | nil =>
      obtain ⟨p, t, rfl⟩ := List.exists_cons_of_ne_nil hne
      have hpre : p :: t <+: p :: (t ++ b) := List.prefix_append (p :: t) b
      rw [List.nil_append, List.cons_append, cut, if_pos hpre, ← List.cons_append, List.drop_left]
  | cons c a ih =>
      have hfirst : ¬ pat <+: c :: a := by
        intro hpre
        rw [count, countFrom, if_pos hpre] at ha
        cases ha
      have hrest : count pat a = 0 := (if_neg hfirst).symm.trans ha
      have hpre := prefix_append_iff (a := c :: a) h (List.cons_ne_nil c a)
      rw [List.cons_append] at hpre ⊢
      rw [cut, if_neg (fun h => hfirst (hpre.mp h)), ih hrest]
      rfl

end Occurrences

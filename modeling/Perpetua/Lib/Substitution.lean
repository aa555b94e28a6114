import Mathlib.Data.List.Forall2
import Perpetua.Lib.RegexSub

/-!
# Substitution

`re.sub` and `str.replace` with one replacement, for any way to find a match that is not empty. A
match may keep its first characters, as a replacement with a group does.
-/

namespace Substitution

open Regex (after after_append)

/-- A match at a place behind the character given, if there is one there: how many characters of it
are kept, and how many behind them are replaced. -/
abbrev Matcher := Option Char → List Char → Option (ℕ × ℕ)

variable (m : Matcher) (repl : List Char)

/-- `sub`, from a place where the next `skip` characters belong to the last match. -/
def subFrom : Option Char → ℕ → List Char → List Char
  | _, _, [] => []
  | _, skip + 1, c :: s => subFrom (some c) skip s
  | last, 0, c :: s =>
      match m last (c :: s) with
      | some (keep, len) => (c :: s).take keep ++ (repl ++ subFrom (some c) (keep + len - 1) s)
      | none => c :: subFrom (some c) 0 s

def sub (s : List Char) : List Char := subFrom m repl none 0 s

/-- Whether a match is found that is not the replacement already. -/
def findsFrom : Option Char → ℕ → List Char → Bool
  | _, _, [] => false
  | _, skip + 1, c :: s => findsFrom (some c) skip s
  | last, 0, c :: s =>
      match m last (c :: s) with
      | some (keep, len) =>
          decide (((c :: s).drop keep).take len ≠ repl) || findsFrom (some c) (keep + len - 1) s
      | none => findsFrom (some c) 0 s

def finds (s : List Char) : Bool := findsFrom m repl none 0 s

/-! ## What a substitution does -/

/-- A text and what a substitution makes of it, match by match; and whether a match was not the
replacement already. -/
inductive Run : Option Char → List Char → List Char → Bool → Prop
  | nil {last : Option Char} : Run last [] [] false
  | keep {last : Option Char} {c : Char} {s s' : List Char} {found : Bool}
      (h : m last (c :: s) = none) (hs : Run (some c) s s' found) : Run last (c :: s) (c :: s') found
  | replace {last : Option Char} {g t s s' : List Char} {found : Bool} (ht : t ≠ [])
      (h : m last (g ++ (t ++ s)) = some (g.length, t.length))
      (hs : Run (after last (g ++ t)) s s' found) :
      Run last (g ++ (t ++ s)) (g ++ (repl ++ s')) (decide (t ≠ repl) || found)

/-- A match is not empty and lies in the text. -/
def Proper : Prop := ∀ last s keep len, m last s = some (keep, len) → 0 < len ∧ keep + len ≤ s.length

variable {m repl}

theorem subFrom_append (last : Option Char) (u s : List Char) :
    subFrom m repl last u.length (u ++ s) = subFrom m repl (after last u) 0 s := by
  induction u generalizing last with
  | nil => rfl
  | cons c u ih => exact ih (some c)

theorem findsFrom_append (last : Option Char) (u s : List Char) :
    findsFrom m repl last u.length (u ++ s) = findsFrom m repl (after last u) 0 s := by
  induction u generalizing last with
  | nil => rfl
  | cons c u ih => exact ih (some c)

theorem run_subFrom (hm : Proper m) (last : Option Char) (s : List Char) :
    Run m repl last s (subFrom m repl last 0 s) (findsFrom m repl last 0 s) := by
  induction hn : s.length using Nat.strong_induction_on generalizing last s with
  | _ n ih =>
    cases s with
    | nil => exact .nil
    | cons c s =>
        rw [List.length_cons] at hn
        cases hmatch : m last (c :: s) with
        | none =>
            rw [subFrom, findsFrom, hmatch]
            exact .keep hmatch (ih s.length (by omega) (some c) s rfl)
        | some match_ =>
            obtain ⟨keep, len⟩ := match_
            obtain ⟨hpos, hle⟩ := hm last (c :: s) keep len hmatch
            obtain ⟨g, t, rest, hs, hg, ht⟩ : ∃ g t rest, c :: s = g ++ (t ++ rest) ∧
                g.length = keep ∧ t.length = len := by
              refine ⟨(c :: s).take keep, ((c :: s).drop keep).take len, ((c :: s).drop keep).drop len,
                by rw [List.take_append_drop, List.take_append_drop], ?_, ?_⟩
              · exact List.length_take_of_le (by omega)
              · exact List.length_take_of_le (by rw [List.length_drop]; omega)
            subst hg ht
            have hne : t ≠ [] := List.length_pos_iff.mp hpos
            have hmatch' := hmatch
            rw [hs] at hmatch'
            obtain ⟨u, hu, hulen⟩ : ∃ u, s = u ++ rest ∧ u.length = g.length + t.length - 1 ∧
                after (some c) u = after last (g ++ t) := by
              cases g with
              | nil =>
                  cases t with
                  | nil => exact absurd rfl hne
                  | cons d t =>
                      obtain ⟨rfl, rfl⟩ := List.cons.inj hs
                      exact ⟨t, rfl, by simp, rfl⟩
              | cons d g =>
                  obtain ⟨rfl, rfl⟩ := List.cons.inj hs
                  refine ⟨g ++ t, (List.append_assoc g t rest).symm, ?_, rfl⟩
                  rw [List.length_append, List.length_cons]
                  omega
            have hrun := Run.replace hne hmatch'
              (ih rest.length (by rw [hu, List.length_append] at hn; omega) (after last (g ++ t)) rest rfl)
            rw [subFrom, findsFrom, hmatch]
            dsimp only
            rw [← hulen.1, hu, subFrom_append, findsFrom_append, hulen.2, ← hu, hs,
              List.take_left, List.drop_left, List.take_left]
            exact hrun

variable (repl) in
theorem run_sub (hm : Proper m) (s : List Char) : Run m repl none s (sub m repl s) (finds m repl s) :=
  run_subFrom hm none s

variable {last : Option Char} {s s' : List Char} {found : Bool}

/-- Where nothing is found, nothing is changed. -/
theorem Run.eq_self (h : Run m repl last s s' found) (hfound : found = false) : s' = s := by
  induction h with
  | nil => rfl
  | keep _ _ ih => rw [ih hfound]
  | replace _ _ _ ih =>
      rw [Bool.or_eq_false_iff, decide_eq_false_iff_not, not_not] at hfound
      rw [ih hfound.2, hfound.1]

/-- A text is left as it is, or holds the replacement. -/
theorem Run.eq_self_or_infix (h : Run m repl last s s' found) : s' = s ∨ repl <:+: s' := by
  induction h with
  | nil => exact .inl rfl
  | keep _ _ ih =>
      rcases ih with rfl | ih
      · exact .inl rfl
      · exact .inr (ih.trans (List.suffix_cons _ _).isInfix)
  | @replace _ g _ _ s' _ _ _ _ _ => exact .inr ⟨g, s', by rw [List.append_assoc]⟩

/-- A place where the matcher keeps `g` and replaces `u`. -/
def Place (m : Matcher) (last : Option Char) (s x g u : List Char) : Prop :=
  u ≠ [] ∧ ∃ z, s = x ++ (g ++ (u ++ z)) ∧
    m (after last x) (g ++ (u ++ z)) = some (g.length, u.length)

theorem Place.cons {c : Char} {x g u : List Char} (h : Place m (some c) s x g u) :
    Place m last (c :: s) (c :: x) g u := by
  obtain ⟨hu, z, rfl, hmatch⟩ := h
  exact ⟨hu, z, rfl, hmatch⟩

theorem Place.append {v x g u : List Char} (h : Place m (after last v) s x g u) :
    Place m last (v ++ s) (v ++ x) g u := by
  induction v generalizing last with
  | nil => exact h
  | cons c v ih => exact (ih h).cons

/-- Without a match there is no change. -/
theorem Run.eq_self_of_no_place (h : Run m repl last s s' found)
    (hnone : ∀ x g u, ¬ Place m last s x g u) : s' = s := by
  induction h with
  | nil => rfl
  | keep _ _ ih => rw [ih fun x g u hplace => hnone _ g u hplace.cons]
  | @replace last g t s s' _ ht hmatch _ _ => exact absurd ⟨ht, s, rfl, hmatch⟩ (hnone [] g t)

/-- A text with at most one place to match. -/
theorem Run.single {a t b : List Char} (h : Run m repl last s s' found) (hs : s = a ++ (t ++ b))
    (ht : t ≠ []) (hplace : ∀ x g u, Place m last s x g u → x = a ∧ g = [] ∧ u = t) :
    s' = a ++ (repl ++ b) ∨ s' = s ∧ m (after last a) (t ++ b) = none := by
  induction h generalizing a with
  | nil =>
      obtain ⟨-, htb⟩ := List.append_eq_nil_iff.mp hs.symm
      exact absurd (List.append_eq_nil_iff.mp htb).1 ht
  | @keep last c s s' found hnone hrest ih =>
      cases a with
      | nil =>
          have hself : s' = s := hrest.eq_self_of_no_place fun x g u h =>
            absurd (hplace _ g u h.cons).1 (List.cons_ne_nil c x)
          refine .inr ⟨by rw [hself], ?_⟩
          rw [List.nil_append] at hs
          rw [← hs]
          exact hnone
      | cons d a =>
          obtain ⟨rfl, hs'⟩ := List.cons.inj hs
          refine (ih hs' fun x g u h => ?_).imp (fun heq => ?_) fun heq => ?_
          · obtain ⟨hx, hg, hu⟩ := hplace _ g u h.cons
            exact ⟨(List.cons.inj hx).2, hg, hu⟩
          · rw [heq]
            rfl
          · exact ⟨by rw [heq.1], heq.2⟩
  | @replace last g u s s' found hu hmatch hrest ih =>
      obtain ⟨rfl, rfl, rfl⟩ := hplace [] g u ⟨hu, s, rfl, hmatch⟩
      rw [List.nil_append, List.nil_append, List.append_cancel_left_eq] at hs
      have hself : s' = s := hrest.eq_self_of_no_place fun x g v h => by
        have hwhole : Place m last (u ++ s) (u ++ x) g v := Place.append h
        exact hu (List.append_eq_nil_iff.mp (hplace _ g v hwhole).1).1
      rw [hself, ← hs]
      exact .inl rfl

/-! ## Substitutions do not undo each other

The words of a text are its longest stretches of characters of the replacement. When a match has
another character or is a whole word, a substitution removes other characters, or it puts the
replacement for some words and leaves all else; neither can be undone by such a substitution.
-/

/-- The words of a text. -/
def words (repl s : List Char) : List (List Char) := s.splitOnP fun c => !repl.contains c

/-- The characters between the words. -/
def others (repl s : List Char) : List Char := s.filter fun c => !repl.contains c

/-- What is replaced has another character than the replacement, or is a whole word. -/
def WordWise (m : Matcher) (repl : List Char) : Prop :=
  ∀ last g t s, m last (g ++ (t ++ s)) = some (g.length, t.length) → (∀ c ∈ t, c ∈ repl) →
    (∀ c ∈ after last g, c ∉ repl) ∧ ∀ c ∈ s.head?, c ∉ repl

/-- Some words have become the replacement. -/
abbrev Replaced (repl : List Char) : List (List Char) → List (List Char) → Prop :=
  List.Forall₂ fun w w' => w' = w ∨ w' = repl

theorem Replaced.refl (ws : List (List Char)) : Replaced repl ws ws :=
  List.forall₂_same.mpr fun _ _ => .inl rfl

theorem Replaced.trans {ws ws' ws'' : List (List Char)} (h : Replaced repl ws ws')
    (h' : Replaced repl ws' ws'') : Replaced repl ws ws'' := by
  induction h generalizing ws'' with
  | nil => exact h'
  | cons hw _ ih =>
      cases h' with
      | cons hw' h' =>
          refine .cons ?_ (ih h')
          rcases hw' with rfl | rfl
          · exact hw
          · exact .inr rfl

theorem Replaced.antisymm {ws ws' : List (List Char)} (h : Replaced repl ws ws')
    (h' : Replaced repl ws' ws) : ws' = ws := by
  induction h with
  | nil => rfl
  | cons hw _ ih =>
      cases h' with
      | cons hw' h' =>
          rw [ih h']
          rcases hw with rfl | rfl
          · rfl
          · rcases hw' with rfl | rfl <;> rfl

/-- The words and the characters between them make up the text. -/
theorem eq_of_words_others (hwords : words repl s = words repl s')
    (hothers : others repl s = others repl s') : s = s' := by
  have hs := List.splitOnP_spec (p := fun c => !repl.contains c) s
  have hs' := List.splitOnP_spec (p := fun c => !repl.contains c) s'
  rw [words, words] at hwords
  rw [others, others] at hothers
  rw [hwords, hothers] at hs
  exact hs.symm.trans hs'

theorem words_append_cons {u : List Char} {c : Char} (hu : ∀ d ∈ u, d ∈ repl) (hc : c ∉ repl)
    (s : List Char) : words repl (u ++ c :: s) = u :: words repl s :=
  List.splitOnP_append_cons_of_forall_mem (fun d hd => by simpa using hu d hd) c (by simpa using hc) s

theorem words_of_forall_mem {u : List Char} (hu : ∀ d ∈ u, d ∈ repl) : words repl u = [u] :=
  List.splitOnP_eq_singleton fun d hd => by simpa using hu d hd

theorem others_cons_of_mem {c : Char} (hc : c ∈ repl) (s : List Char) :
    others repl (c :: s) = others repl s := List.filter_cons_of_neg (by simpa using hc)

theorem others_cons_of_notMem {c : Char} (hc : c ∉ repl) (s : List Char) :
    others repl (c :: s) = c :: others repl s := List.filter_cons_of_pos (by simpa using hc)

theorem others_append (s t : List Char) : others repl (s ++ t) = others repl s ++ others repl t :=
  List.filter_append s t

theorem others_of_forall_mem {u : List Char} (hu : ∀ d ∈ u, d ∈ repl) : others repl u = [] :=
  List.filter_eq_nil_iff.mpr fun d hd => by simpa using hu d hd

/-- A word that no character continues. -/
theorem words_append_of_head {w : List Char} (hw : ∀ c ∈ w, c ∈ repl) (hs : ∀ c ∈ s.head?, c ∉ repl) :
    words repl (w ++ s) = w :: (words repl s).tail := by
  cases s with
  | nil =>
      rw [List.append_nil, words_of_forall_mem hw]
      rfl
  | cons c s =>
      have hc : c ∉ repl := hs c rfl
      have hcons := words_append_cons (u := []) (by simp) hc s
      rw [List.nil_append] at hcons
      rw [words_append_cons hw hc, hcons, List.tail_cons]

/-- What a substitution does word by word, behind a word that is not yet complete. -/
structure Worded (repl : List Char) (last : Option Char) (s s' : List Char) (found : Bool) : Prop where
  others : others repl s' = others repl s
  nil : s = [] → s' = []
  head : ∀ c ∈ s.head?, c ∉ repl → s'.head? = some c
  replaced : ∀ u, (∀ c ∈ u, c ∈ repl) → (u = [] ∨ ∃ c ∈ last, c ∈ repl) →
    Replaced repl (words repl (u ++ s)) (words repl (u ++ s'))
  found : found = true → ∀ u, (∀ c ∈ u, c ∈ repl) → (u = [] ∨ ∃ c ∈ last, c ∈ repl) →
    words repl (u ++ s) ≠ words repl (u ++ s')

theorem Worded.cons {c : Char} (h : Worded repl (some c) s s' found) :
    Worded repl last (c :: s) (c :: s') found := by
  by_cases hc : c ∈ repl
  · have hword : ∀ u : List Char, (∀ d ∈ u, d ∈ repl) → ∀ d ∈ u ++ [c], d ∈ repl := by
      intro u hu
      rw [List.forall_mem_append]
      exact ⟨hu, List.forall_mem_singleton.mpr hc⟩
    refine ⟨?_, by simp, fun d hd _ => hd, ?_, ?_⟩
    · rw [others_cons_of_mem hc, others_cons_of_mem hc, h.others]
    · intro u hu _
      simpa using h.replaced (u ++ [c]) (hword u hu) (.inr ⟨c, rfl, hc⟩)
    · intro hfound u hu _
      simpa using h.found hfound (u ++ [c]) (hword u hu) (.inr ⟨c, rfl, hc⟩)
  · refine ⟨?_, by simp, fun d hd _ => hd, ?_, ?_⟩
    · rw [others_cons_of_notMem hc, others_cons_of_notMem hc, h.others]
    · intro u hu _
      rw [words_append_cons hu hc, words_append_cons hu hc]
      exact .cons (.inl rfl) (h.replaced [] (by simp) (.inl rfl))
    · intro hfound u hu _
      rw [words_append_cons hu hc, words_append_cons hu hc]
      exact fun heq => h.found hfound [] (by simp) (.inl rfl) (List.cons.inj heq).2

theorem Worded.append (g : List Char) (h : Worded repl (after last g) s s' found) :
    Worded repl last (g ++ s) (g ++ s') found := by
  induction g generalizing last with
  | nil => exact h
  | cons c g ih => exact (ih h).cons

/-- A whole word is replaced. -/
theorem Worded.word {t : List Char} (ht : ∀ c ∈ t, c ∈ repl) (hne : t ≠ [])
    (hlast : ∀ c ∈ last, c ∉ repl) (hhead : ∀ c ∈ s.head?, c ∉ repl) {last' : Option Char}
    (h : Worded repl last' s s' found) :
    Worded repl last (t ++ s) (repl ++ s') (decide (t ≠ repl) || found) := by
  have hempty : ∀ u : List Char, (u = [] ∨ ∃ c ∈ last, c ∈ repl) → u = [] := by
    rintro u (hu | ⟨c, hc, hmem⟩)
    · exact hu
    · exact absurd hmem (hlast c hc)
  have hself : ∀ c ∈ repl, c ∈ repl := fun _ hc => hc
  have hhead' : ∀ c ∈ s'.head?, c ∉ repl := by
    intro c hc
    cases s with
    | nil =>
        rw [h.nil rfl] at hc
        cases hc
    | cons d s =>
        have hd := h.head d rfl (hhead d rfl)
        rw [Option.mem_def.mp hc] at hd
        exact Option.some.inj hd ▸ hhead d rfl
  have hwords := words_append_of_head ht hhead
  have hwords' := words_append_of_head hself hhead'
  have hold : words repl s = [] :: (words repl s).tail :=
    words_append_of_head (w := []) (by simp) hhead
  have hnew : words repl s' = [] :: (words repl s').tail :=
    words_append_of_head (w := []) (by simp) hhead'
  have hreplaced := h.replaced [] (by simp) (.inl rfl)
  rw [List.nil_append, List.nil_append, hold, hnew] at hreplaced
  refine ⟨?_, ?_, ?_, ?_, ?_⟩
  · rw [others_append, others_append, others_of_forall_mem ht, others_of_forall_mem hself, h.others]
  · intro hnil
    exact absurd (List.append_eq_nil_iff.mp hnil).1 hne
  · intro c hc hmem
    cases t with
    | nil => exact absurd rfl hne
    | cons d t =>
        obtain rfl : d = c := Option.some.inj hc
        exact absurd (ht d List.mem_cons_self) hmem
  · intro u _ hu
    rw [hempty u hu, List.nil_append, List.nil_append, hwords, hwords']
    cases hreplaced with
    | cons _ htail => exact .cons (.inr rfl) htail
  · intro hfound u _ hu
    rw [hempty u hu, List.nil_append, List.nil_append, hwords, hwords']
    intro heq
    obtain ⟨hrepl, htail⟩ := List.cons.inj heq
    rw [Bool.or_eq_true, decide_eq_true_eq] at hfound
    rcases hfound with hfound | hfound
    · exact hfound hrepl
    · refine h.found hfound [] (by simp) (.inl rfl) ?_
      rw [List.nil_append, List.nil_append, hold, hnew, htail]

/-- One substitution: it removes other characters, or works word by word. -/
theorem Run.worded (hm : WordWise m repl) (h : Run m repl last s s' found) :
    (others repl s').length < (others repl s).length ∨ Worded repl last s s' found := by
  induction h with
  | nil => exact .inr ⟨rfl, fun _ => rfl, by simp, fun _ _ _ => Replaced.refl _, by simp⟩
  | @keep _ c _ _ _ _ _ ih =>
      refine ih.imp (fun hlt => ?_) Worded.cons
      by_cases hc : c ∈ repl
      · rwa [others_cons_of_mem hc, others_cons_of_mem hc]
      · rw [others_cons_of_notMem hc, others_cons_of_notMem hc, List.length_cons, List.length_cons]
        omega
  | @replace last g t s s' found ht hmatch _ ih =>
      have hself : others repl repl = [] := others_of_forall_mem fun _ hc => hc
      by_cases hword : ∀ c ∈ t, c ∈ repl
      · obtain ⟨hlast, hhead⟩ := hm last g t s hmatch hword
        refine ih.imp (fun hlt => ?_) fun hrest => ?_
        · rw [others_append, others_append, others_append, others_append, hself,
            others_of_forall_mem hword, List.length_append, List.length_append]
          simpa using hlt
        · exact Worded.append g (hrest.word hword ht hlast hhead)
      · rw [not_forall] at hword
        obtain ⟨c, hc⟩ := hword
        rw [Classical.not_imp] at hc
        have hpos : 0 < (others repl t).length :=
          List.length_pos_of_mem (List.mem_filter.mpr ⟨hc.1, by simpa using hc.2⟩)
        have hle : (others repl s').length ≤ (others repl s).length := by
          rcases ih with hlt | hrest
          · exact hlt.le
          · exact (congrArg List.length hrest.others).le
        refine .inl ?_
        rw [others_append, others_append, others_append, others_append, hself]
        simp only [List.length_append, List.length_nil]
        omega

/-- The other characters and the words go one way. -/
structure Reduces (repl s s' : List Char) : Prop where
  others : (others repl s').length ≤ (others repl s).length
  words : (Substitution.others repl s').length = (Substitution.others repl s).length →
    Substitution.others repl s' = Substitution.others repl s ∧ Replaced repl (words repl s) (words repl s')

theorem Reduces.refl (s : List Char) : Reduces repl s s := ⟨le_rfl, fun _ => ⟨rfl, Replaced.refl _⟩⟩

theorem Reduces.trans {t : List Char} (h : Reduces repl s s') (h' : Reduces repl s' t) :
    Reduces repl s t := by
  refine ⟨h'.others.trans h.others, fun heq => ?_⟩
  have hle := h.others
  have hle' := h'.others
  obtain ⟨hothers, hwords⟩ := h.words (by omega)
  obtain ⟨hothers', hwords'⟩ := h'.words (by omega)
  exact ⟨hothers'.trans hothers, hwords.trans hwords'⟩

/-- There is no way back. -/
theorem Reduces.antisymm (h : Reduces repl s s') (h' : Reduces repl s' s) : s' = s := by
  have heq := le_antisymm h'.others h.others
  obtain ⟨hothers, hwords⟩ := h.words heq.symm
  exact eq_of_words_others (hwords.antisymm (h'.words heq).2) hothers

theorem reduces_sub (hp : Proper m) (hm : WordWise m repl) (s : List Char) :
    Reduces repl s (sub m repl s) := by
  rcases (run_sub repl hp s).worded hm with hlt | hworded
  · exact ⟨hlt.le, fun heq => absurd heq hlt.ne⟩
  · refine ⟨(congrArg List.length hworded.others).le, fun _ => ⟨hworded.others, ?_⟩⟩
    simpa using hworded.replaced [] (by simp) (.inl rfl)

/-- A text is left as it is exactly when nothing is found in it. -/
theorem sub_eq_self_iff (hp : Proper m) (hm : WordWise m repl) (s : List Char) :
    sub m repl s = s ↔ finds m repl s = false := by
  constructor
  · intro heq
    by_contra hfound
    rw [Bool.not_eq_false] at hfound
    have hrun := run_sub repl hp s
    rw [heq] at hrun
    rcases hrun.worded hm with hlt | hworded
    · exact lt_irrefl _ hlt
    · exact hworded.found hfound [] (by simp) (.inl rfl) rfl
  · exact (run_sub repl hp s).eq_self

/-- One substitution after the other leaves a text as it is exactly when none of them finds anything
in it. -/
theorem foldl_sub_eq_self_iff {ms : List Matcher} (hp : ∀ m ∈ ms, Proper m)
    (hm : ∀ m ∈ ms, WordWise m repl) (s : List Char) :
    ms.foldl (fun s m => sub m repl s) s = s ↔ ∀ m ∈ ms, finds m repl s = false := by
  have hreduces : ∀ ms : List Matcher, (∀ m ∈ ms, Proper m) → (∀ m ∈ ms, WordWise m repl) →
      ∀ s, Reduces repl s (ms.foldl (fun s m => sub m repl s) s) := by
    intro ms
    induction ms with
    | nil => exact fun _ _ s => Reduces.refl s
    | cons m ms ih =>
        intro hp hm s
        rw [List.forall_mem_cons] at hp hm
        exact (reduces_sub hp.1 hm.1 s).trans (ih hp.2 hm.2 _)
  induction ms with
  | nil => simp
  | cons m ms ih =>
      rw [List.forall_mem_cons] at hp hm
      rw [List.foldl_cons, List.forall_mem_cons, ← sub_eq_self_iff hp.1 hm.1]
      refine Iff.trans ?_ (and_congr_right fun _ => ih hp.2 hm.2)
      constructor
      · intro heq
        have hback := hreduces ms hp.2 hm.2 (sub m repl s)
        rw [heq] at hback
        have hfirst := (reduces_sub hp.1 hm.1 s).antisymm hback
        rw [hfirst] at heq
        exact ⟨hfirst, heq⟩
      · rintro ⟨hfirst, hrest⟩
        rw [hfirst, hrest]

end Substitution

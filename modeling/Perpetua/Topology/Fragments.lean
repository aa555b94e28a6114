import Mathlib.Data.Bool.AllAny
import Perpetua.Topology.Hygiene

/-!
# Fragments and what they match

A fragment is stripped text without a line feed, so it does not begin or end with a space. What the
matchers of a fragment replace is the fragment itself, or for a reference to a branch the fragment
in some case.
-/

namespace Perpetua.Topology

open Json (Value)
open Redaction (UnicodeTables isWord)
open Regex (after after_append)
open Substitution (Matcher Proper WordWise Run)

/-! ## Characters -/

theorem isSpace_eq_false_of_isAlpha {c : Char} (h : c.isAlpha) : PyText.isSpace c = false :=
  PyText.isSpace_of_isAlphanum (PyText.isAlphanum_iff.mpr (.inl (PyText.isAlpha_iff.mp h)))

theorem isSpace_of_mem_foldedFrom {c d : Char} (h : d ∈ foldedFrom c) :
    c.isAlpha ∧ PyText.isSpace d = false := by
  rw [foldedFrom] at h
  split at h
  next hc =>
    refine ⟨by rcases hc with rfl | rfl <;> decide, ?_⟩
    rcases List.mem_pair.mp h with rfl | rfl <;> decide
  · split at h
    next hc => exact ⟨by rcases hc with rfl | rfl <;> decide, by rw [List.mem_singleton.mp h]; decide⟩
    · split at h
      next hc => exact ⟨by rcases hc with rfl | rfl <;> decide, by rw [List.mem_singleton.mp h]; decide⟩
      · cases h

section

variable [CaseTables]

/-- A space has no other case. -/
theorem isSpace_of_sameCase {p c : Char} (h : sameCase p c = true) :
    PyText.isSpace p = PyText.isSpace c := by
  rw [sameCase] at h
  split at h
  · split at h
    · rw [Bool.or_eq_true, beq_iff_eq, Bool.and_eq_true, Bool.and_eq_true] at h
      rcases h with rfl | ⟨⟨hp, hc⟩, -⟩
      · rfl
      · rw [isSpace_eq_false_of_isAlpha hp, isSpace_eq_false_of_isAlpha hc]
    · obtain ⟨hp, hc⟩ := isSpace_of_mem_foldedFrom (List.contains_iff_mem.mp h)
      rw [isSpace_eq_false_of_isAlpha hp, hc]
  · split at h
    · obtain ⟨hc, hp⟩ := isSpace_of_mem_foldedFrom (List.contains_iff_mem.mp h)
      rw [isSpace_eq_false_of_isAlpha hc, hp]
    · exact CaseTables.space p c h

/-- What is no letter of ASCII has no other case. -/
theorem eq_of_sameCase {p c : Char} (h : sameCase p c = true) (hc : isAscii c = true)
    (hletter : c.isAlpha = false) : p = c := by
  rw [sameCase, hc] at h
  split at h
  · simpa [hletter] using h
  · have hmem := isSpace_of_mem_foldedFrom (List.contains_iff_mem.mp (by simpa using h))
    rw [hletter] at hmem
    cases hmem.1

/-- What is matched under `re.IGNORECASE`. -/
abbrev SameText : Text → Text → Prop := List.Forall₂ fun p c => sameCase p c = true

theorem stripCase_eq_some {p s rest : Text} (h : stripCase p s = some rest) :
    ∃ t, s = t ++ rest ∧ SameText p t := by
  induction p generalizing s with
  | nil => exact ⟨[], (Option.some.inj h), .nil⟩
  | cons a p ih =>
      cases s with
      | nil => cases h
      | cons c s =>
          rw [stripCase, Option.ite_none_right_eq_some] at h
          obtain ⟨t, rfl, ht⟩ := ih h.2
          exact ⟨c :: t, rfl, .cons h.1 ht⟩

end

/-! ## Matches -/

theorem plainAt_eq_some {f g t s : Text} {last : Option Char}
    (h : plainAt f last (g ++ (t ++ s)) = some (g.length, t.length)) : g = [] ∧ t = f := by
  rw [plainAt, Option.ite_none_right_eq_some] at h
  obtain ⟨hstarts, heq⟩ := h
  obtain ⟨hg, ht⟩ := Prod.mk.inj (Option.some.inj heq)
  obtain rfl := List.length_eq_zero_iff.mp hg.symm
  have hf := List.isPrefixOf_iff_prefix.mp hstarts
  rw [List.nil_append] at hf
  exact ⟨rfl, ((List.prefix_of_prefix_length_le hf (List.prefix_append t s) ht.le).eq_of_length ht).symm⟩

theorem proper_plainAt {f : Text} (hf : f ≠ []) : Proper (plainAt f) := by
  intro last s keep len h
  rw [plainAt, Option.ite_none_right_eq_some] at h
  obtain ⟨hstarts, heq⟩ := h
  obtain ⟨rfl, rfl⟩ := Prod.mk.inj (Option.some.inj heq)
  have hle := (List.isPrefixOf_iff_prefix.mp hstarts).length_le
  exact ⟨List.length_pos_iff.mpr hf, by omega⟩

def isSeparator (c : Char) : Bool := c == '_' || c == ':' || c == '=' || PyText.isSpace c

theorem separator_eq_some {s rest : Text} (h : separator s = some rest) :
    ∃ sep, s = sep ++ rest ∧ sep ≠ [] ∧ ∀ c ∈ sep, isSeparator c = true := by
  cases s with
  | nil => cases h
  | cons c s =>
      rw [separator, Option.ite_none_right_eq_some] at h
      obtain ⟨hc, heq⟩ := h
      refine ⟨c :: s.takeWhile PyText.isSpace, ?_, List.cons_ne_nil _ _, ?_⟩
      · rw [← Option.some.inj heq, List.cons_append, List.takeWhile_append_dropWhile]
      · rw [List.forall_mem_cons]
        refine ⟨hc, fun d hd => ?_⟩
        have hspace := List.mem_takeWhile_imp hd
        simp [isSeparator, hspace]

theorem isSeparator_notMem {c : Char} (h : isSeparator c = true) : c ∉ legacyRedacted := by
  have hnone : ∀ d ∈ legacyRedacted, isSeparator d = false :=
    List.all_iff_forall_prop.mp (by decide)
  intro hc
  rw [hnone c hc] at h
  cases h

theorem any_eq_false_iff {p : Char → Bool} {o : Option Char} : o.any p = false ↔ ∀ c ∈ o, p c = false := by
  cases o <;> simp

/-- Characters of which a fragment that is replaced everywhere has one. -/
def pathMarks : List Char := ['@', '/', '~', ':']

theorem pathMarks_notMem : ∀ c ∈ pathMarks, c ∉ legacyRedacted :=
  List.all_iff_forall_prop.mp (by decide)

section

variable [UnicodeTables]

theorem isPathChar_of_mem_legacyRedacted {c : Char} (h : c ∈ legacyRedacted) : isPathChar c = true := by
  have hascii : ∀ d ∈ legacyRedacted, d.toNat < 0x80 ∧ (d.isAlphanum || d == '-') = true :=
    List.all_iff_forall_prop.mp (by decide)
  obtain ⟨hlt, hc⟩ := hascii c h
  rw [isPathChar, isWord, if_pos hlt]
  revert hc
  cases c.isAlphanum <;> simp +contextual

theorem wordAt_eq_some {f g t s : Text} {last : Option Char}
    (h : wordAt f last (g ++ (t ++ s)) = some (g.length, t.length)) :
    g = [] ∧ t = f ∧ last.any isPathChar = false ∧ s.head?.any isPathChar = false := by
  rw [wordAt, Option.ite_none_right_eq_some] at h
  obtain ⟨⟨hlast, hstarts, hbehind⟩, heq⟩ := h
  obtain ⟨hg, ht⟩ := Prod.mk.inj (Option.some.inj heq)
  obtain rfl := List.length_eq_zero_iff.mp hg.symm
  have hf := List.isPrefixOf_iff_prefix.mp hstarts
  rw [List.nil_append] at hf hbehind
  obtain rfl : t = f :=
    ((List.prefix_of_prefix_length_le hf (List.prefix_append t s) ht.le).eq_of_length ht).symm
  rw [List.drop_left] at hbehind
  exact ⟨rfl, rfl, by simpa using hlast, by simpa using hbehind⟩

theorem proper_wordAt {f : Text} (hf : f ≠ []) : Proper (wordAt f) := by
  intro last s keep len h
  rw [wordAt, Option.ite_none_right_eq_some] at h
  obtain ⟨⟨-, hstarts, -⟩, heq⟩ := h
  obtain ⟨rfl, rfl⟩ := Prod.mk.inj (Option.some.inj heq)
  have hle := (List.isPrefixOf_iff_prefix.mp hstarts).length_le
  exact ⟨List.length_pos_iff.mpr hf, by omega⟩

variable [CaseTables]

/-- The prefix of a reference. -/
theorem refAt_eq_some {last : Option Char} {s rest : Text} (h : refAt last s = some rest) :
    last.any isWord ≠ s.head?.any isWord ∧
      ∃ word sep, s = word ++ (sep ++ rest) ∧ (SameText "branch".toList word ∨ SameText "ref".toList word) ∧
        sep ≠ [] ∧ ∀ c ∈ sep, isSeparator c = true := by
  have hcase : ∀ p : Text, (stripCase p s).bind separator = some rest →
      ∃ word sep, s = word ++ (sep ++ rest) ∧ SameText p word ∧ sep ≠ [] ∧
        ∀ c ∈ sep, isSeparator c = true := by
    intro p hp
    obtain ⟨behind, hstrip, hsep⟩ := Option.bind_eq_some_iff.mp hp
    obtain ⟨word, rfl, hword⟩ := stripCase_eq_some hstrip
    obtain ⟨sep, rfl, hne, hall⟩ := separator_eq_some hsep
    exact ⟨word, sep, rfl, hword, hne, hall⟩
  rw [refAt, Option.ite_none_left_eq_some] at h
  refine ⟨h.1, ?_⟩
  rcases Option.or_eq_some_iff.mp h.2 with hbranch | ⟨-, href⟩
  · obtain ⟨word, sep, hs, hword, hsep⟩ := hcase _ hbranch
    exact ⟨word, sep, hs, .inl hword, hsep⟩
  · obtain ⟨word, sep, hs, hword, hsep⟩ := hcase _ href
    exact ⟨word, sep, hs, .inr hword, hsep⟩

theorem referenceAt_eq_some {f s : Text} {last : Option Char} {keep len : ℕ}
    (h : referenceAt f last s = some (keep, len)) :
    last.any isWord ≠ s.head?.any isWord ∧
      ∃ word sep t behind, s = word ++ (sep ++ (t ++ behind)) ∧
        (SameText "branch".toList word ∨ SameText "ref".toList word) ∧
        sep ≠ [] ∧ (∀ c ∈ sep, isSeparator c = true) ∧ SameText f t ∧
        behind.head?.any isPathChar = false ∧ keep = (word ++ sep).length ∧ len = t.length := by
  rw [referenceAt] at h
  cases href : refAt last s with
  | none =>
      rw [href] at h
      cases h
  | some rest =>
      rw [href] at h
      dsimp only at h
      obtain ⟨hedge, word, sep, rfl, hword, hne, hsep⟩ := refAt_eq_some href
      cases hstrip : stripCase f rest with
      | none =>
          rw [hstrip] at h
          cases h
      | some behind =>
          rw [hstrip] at h
          dsimp only at h
          obtain ⟨t, rfl, ht⟩ := stripCase_eq_some hstrip
          rw [Option.ite_none_left_eq_some] at h
          obtain ⟨hbehind, heq⟩ := h
          obtain ⟨hkeep, hlen⟩ := Prod.mk.inj (Option.some.inj heq)
          refine ⟨hedge, word, sep, t, behind, rfl, hword, hne, hsep, ht, by simpa using hbehind, ?_, ?_⟩
          · rw [← hkeep]
            simp only [List.length_append]
            omega
          · rw [← hlen, List.length_append]
            omega

theorem proper_referenceAt {f : Text} (hf : f ≠ []) : Proper (referenceAt f) := by
  intro last s keep len h
  obtain ⟨-, word, sep, t, behind, rfl, -, -, -, ht, -, rfl, rfl⟩ := referenceAt_eq_some h
  have hlen := ht.length_eq
  have hpos := List.length_pos_iff.mpr hf
  simp only [List.length_append]
  omega

/-! ## The matchers of a fragment -/

/-- A fragment is replaced everywhere or, without `@`, as a branch. -/
theorem mem_matchersOf {f : Text} {m : Matcher} (h : m ∈ matchersOf f) :
    (m = plainAt f ∧ ∃ c ∈ f, c ∈ pathMarks) ∨ ((m = referenceAt f ∨ m = wordAt f) ∧ '@' ∉ f) := by
  rw [matchersOf] at h
  split at h
  · cases h
  · split at h
    next hplain =>
      refine .inl ⟨List.mem_singleton.mp h, ?_⟩
      rcases hplain with hat | hhead | hdrive
      · exact ⟨'@', hat, by decide⟩
      · cases f with
        | nil => cases hhead
        | cons c f =>
            have hc : c = '/' ∨ c = '~' := by simpa using hhead
            exact ⟨c, List.mem_cons_self, by rcases hc with rfl | rfl <;> decide⟩
      · rw [startsWithDrive, Bool.and_eq_true, beq_iff_eq] at hdrive
        exact ⟨':', List.mem_of_mem_tail (List.mem_of_mem_head? hdrive.2), by decide⟩
    next hbranch =>
      rw [not_or] at hbranch
      exact .inr ⟨by simpa using h, hbranch.1⟩

/-- What a fragment replaces has a mark of a path, or is a whole word. -/
theorem wordWise_of_mem {f : Text} {m : Matcher} (h : m ∈ matchersOf f) : WordWise m legacyRedacted := by
  intro last g t s hmatch ht
  rcases mem_matchersOf h with ⟨rfl, c, hc, hmark⟩ | ⟨rfl | rfl, -⟩
  · obtain ⟨-, rfl⟩ := plainAt_eq_some hmatch
    exact absurd (ht c hc) (pathMarks_notMem c hmark)
  · obtain ⟨-, word, sep, t', behind, hs, -, hne, hsep, -, hbehind, hkeep, hlen⟩ :=
      referenceAt_eq_some hmatch
    rw [← List.append_assoc word] at hs
    obtain ⟨rfl, hrest⟩ := List.append_inj hs hkeep
    obtain ⟨rfl, rfl⟩ := List.append_inj hrest hlen
    rw [any_eq_false_iff] at hbehind
    constructor
    · intro c hc
      rw [after_append, Regex.after_eq_getLast hne] at hc
      obtain rfl := Option.some.inj hc
      exact isSeparator_notMem (hsep _ (List.getLast_mem hne))
    · intro c hc hmem
      have hpath := hbehind c hc
      rw [isPathChar_of_mem_legacyRedacted hmem] at hpath
      cases hpath
  · obtain ⟨rfl, -, hlast, hbehind⟩ := wordAt_eq_some hmatch
    rw [any_eq_false_iff] at hlast hbehind
    constructor
    · intro c hc hmem
      have hpath := hlast c hc
      rw [isPathChar_of_mem_legacyRedacted hmem] at hpath
      cases hpath
    · intro c hc hmem
      have hpath := hbehind c hc
      rw [isPathChar_of_mem_legacyRedacted hmem] at hpath
      cases hpath

theorem proper_of_mem {f : Text} (hf : f ≠ []) {m : Matcher} (h : m ∈ matchersOf f) : Proper m := by
  rcases mem_matchersOf h with ⟨rfl, -⟩ | ⟨rfl | rfl, -⟩
  · exact proper_plainAt hf
  · exact proper_referenceAt hf
  · exact proper_wordAt hf

end

/-! ## Stripped texts and labels -/

/-- The text does not begin or end with a space. -/
structure Trimmed (s : Text) : Prop where
  head : ∀ c ∈ s.head?, PyText.isSpace c = false
  last : ∀ c ∈ s.getLast?, PyText.isSpace c = false

theorem trimmed_of_all {s : Text} (hhead : s.head?.all (!PyText.isSpace ·) = true)
    (hlast : s.getLast?.all (!PyText.isSpace ·) = true) : Trimmed s := by
  rw [Option.all_eq_true] at hhead hlast
  exact ⟨fun c hc => by simpa using hhead c hc, fun c hc => by simpa using hlast c hc⟩

def Spaces (s : Text) : Prop := ∀ c ∈ s, PyText.isSpace c = true

theorem head?_dropWhile_isSpace (s : Text) :
    ∀ c ∈ (s.dropWhile PyText.isSpace).head?, PyText.isSpace c = false := by
  intro c hc
  have h := List.head?_dropWhile_not PyText.isSpace s
  rw [Option.mem_def.mp hc] at h
  exact h

/-- What is stripped are spaces. -/
theorem strip_split (s : Text) :
    ∃ a b, s = a ++ (strip s ++ b) ∧ Spaces a ∧ Spaces b ∧ Trimmed (strip s) := by
  have hleft := List.takeWhile_append_dropWhile (p := PyText.isSpace) (l := s)
  have hright := List.takeWhile_append_dropWhile (p := PyText.isSpace)
    (l := (s.dropWhile PyText.isSpace).reverse)
  have hstrip : strip s = ((s.dropWhile PyText.isSpace).reverse.dropWhile PyText.isSpace).reverse := by
    rw [strip, PyText.strip, String.toList_ofList, String.toList_ofList]
  have hdrop : s.dropWhile PyText.isSpace =
      strip s ++ ((s.dropWhile PyText.isSpace).reverse.takeWhile PyText.isSpace).reverse := by
    rw [hstrip, ← List.reverse_append, hright, List.reverse_reverse]
  refine ⟨s.takeWhile PyText.isSpace,
    ((s.dropWhile PyText.isSpace).reverse.takeWhile PyText.isSpace).reverse, ?_,
    fun c hc => List.mem_takeWhile_imp hc, ?_, ?_, ?_⟩
  · rw [← hdrop, hleft]
  · intro c hc
    exact List.mem_takeWhile_imp (List.mem_reverse.mp hc)
  · intro c hc
    apply head?_dropWhile_isSpace s
    rw [hdrop, List.head?_append, Option.mem_def.mp hc]
    rfl
  · intro c hc
    rw [hstrip, List.getLast?_reverse] at hc
    exact head?_dropWhile_isSpace _ c hc

/-- A label is a branch, `@` and a path. -/
theorem legacyLabel_eq_some {value : Text} {label : Label} (h : legacyLabel value = some label) :
    value = label.branch ++ '@' :: label.path ∧ (∀ c ∈ label.branch, isBranchChar c = true) ∧
      startsWithPath label.path = true := by
  rw [legacyLabel, Option.ite_none_right_eq_some] at h
  obtain ⟨⟨hat, hpath, -⟩, heq⟩ := h
  obtain rfl := Option.some.inj heq
  obtain ⟨rest, hrest⟩ := List.head?_eq_some_iff.mp hat
  refine ⟨?_, fun c hc => List.mem_takeWhile_imp hc, hpath⟩
  dsimp only
  rw [hrest, List.tail_cons, ← hrest, List.takeWhile_append_dropWhile]

theorem startsWithPath_head {path : Text} (h : startsWithPath path = true) :
    ∃ c rest, path = c :: rest ∧ PyText.isSpace c = false := by
  cases path with
  | nil => cases h
  | cons c rest =>
      refine ⟨c, rest, rfl, ?_⟩
      rw [startsWithPath, startsWithDrivePath, startsWithDrive] at h
      simp only [List.head?_cons, Option.any_some, Bool.or_eq_true, beq_iff_eq, Bool.and_eq_true] at h
      rcases h with (rfl | rfl) | ⟨⟨halpha, -⟩, -⟩
      · decide
      · decide
      · exact isSpace_eq_false_of_isAlpha halpha

/-! ## The fragments of a payload -/

/-- What every fragment is. -/
structure IsFragment (f : Text) : Prop where
  ne_nil : f ≠ []
  trimmed : Trimmed f

theorem isFragment_of_mem_fragmentsOf {v : Value} {f : Text} (h : f ∈ fragmentsOf v) (hne : f ≠ []) :
    IsFragment f := by
  cases v with
  | str s =>
      unfold fragmentsOf at h
      dsimp only at h
      cases hlabel : legacyLabel (strip s.toList) with
      | none =>
          rw [hlabel] at h
          cases h
      | some label =>
          rw [hlabel] at h
          dsimp only at h
          obtain ⟨hvalue, hbranch, hpath⟩ := legacyLabel_eq_some hlabel
          obtain ⟨-, -, -, -, -, htrim⟩ := strip_split s.toList
          obtain ⟨c, rest, hcons, hc⟩ := startsWithPath_head hpath
          refine ⟨hne, ?_⟩
          rcases List.mem_append.mp h with h | h
          · rcases List.mem_pair.mp h with h | h
            · rw [h]
              exact htrim
            · rw [h]
              constructor
              · rw [hcons]
                simpa using hc
              · intro d hd
                apply htrim.last
                rw [hvalue, List.getLast?_append, List.getLast?_cons, Option.mem_def.mp hd]
                rfl
          · split at h
            · obtain rfl := List.mem_singleton.mp h
              have hnone : ∀ d ∈ label.branch, PyText.isSpace d = false := by
                intro d hd
                have hd := hbranch d hd
                rw [isBranchChar, Bool.and_eq_true] at hd
                simpa using hd.2
              exact ⟨fun d hd => hnone d (List.mem_of_mem_head? hd),
                fun d hd => hnone d (List.mem_of_getLast? hd)⟩
            · cases h
  | _ => cases h

theorem isFragment_of_mem {payload : Value} {f : Text} (h : f ∈ fragmentSet payload) :
    IsFragment f := by
  obtain ⟨hmem, hne⟩ := List.mem_filter.mp h
  obtain ⟨v, -, hv⟩ := List.mem_flatMap.mp hmem
  exact isFragment_of_mem_fragmentsOf hv (of_decide_eq_true hne)

theorem mem_legacyFragments {order : SetOrder} {payload : Value} {f : Text} :
    f ∈ legacyFragments order payload ↔ f ∈ fragmentSet payload := by
  rw [legacyFragments, List.mem_insertionSort, (order.perm _).mem_iff, List.mem_dedup]

/-- The longest fragments come first. -/
theorem pairwise_legacyFragments (order : SetOrder) (payload : Value) :
    (legacyFragments order payload).Pairwise fun a b => b.length ≤ a.length :=
  have : Std.Total fun a b : Text => b.length ≤ a.length := ⟨fun _ _ => Nat.le_total _ _⟩
  have : IsTrans Text fun a b => b.length ≤ a.length := ⟨fun _ _ _ hab hbc => hbc.trans hab⟩
  List.pairwise_insertionSort _ _

/-! ## Classes -/

/-- The characters of an identifier. -/
theorem mem_of_isId {s : Text} (h : isId s = true) : ∀ c ∈ s, c ∈ idPrefix ∨ isHexDigit c = true := by
  rw [isId, Bool.and_eq_true, Bool.and_eq_true, List.isPrefixOf_iff_prefix] at h
  obtain ⟨⟨⟨rest, rfl⟩, -⟩, hhex⟩ := h
  intro c hc
  rcases List.mem_append.mp hc with hc | hc
  · exact .inl hc
  · exact .inr (List.all_eq_true.mp hhex c hc)

theorem isOpaqueProducerId_split {s : Text} (h : isOpaqueProducerId s = true) :
    ∃ core b, s = core ++ b ∧ isId core = true ∧ Spaces b := by
  rw [isOpaqueProducerId, Bool.or_eq_true, Bool.and_eq_true, beq_iff_eq] at h
  rcases h with h | ⟨hlast, h⟩
  · exact ⟨s, [], (List.append_nil s).symm, h, by simp [Spaces]⟩
  · refine ⟨s.dropLast, ['\n'], (List.dropLast_append_getLast? _ hlast).symm, h, ?_⟩
    intro c hc
    rw [List.mem_singleton.mp hc]
    decide

theorem isHexDigit_range {c : Char} (h : isHexDigit c = true) :
    (48 ≤ c.toNat ∧ c.toNat ≤ 57) ∨ (97 ≤ c.toNat ∧ c.toNat ≤ 102) := by
  simpa [isHexDigit, Char.isDigit, UInt32.le_iff_toNat_le] using h

theorem at_notMem_of_isOpaqueProducerId {s : Text} (h : isOpaqueProducerId s = true) : '@' ∉ s := by
  obtain ⟨core, b, rfl, hid, hb⟩ := isOpaqueProducerId_split h
  rw [List.mem_append, not_or]
  constructor
  · intro hat
    rcases mem_of_isId hid _ hat with hat | hat
    · exact absurd hat (by decide)
    · exact absurd hat (by decide)
  · exact fun hat => absurd (hb _ hat) (by decide)

/-- A value with a fragment is a legacy label. -/
theorem classifyValue_of_fragment {v : Value} {f : Text} (h : f ∈ fragmentsOf v) :
    classifyValue v = .legacyLabel := by
  cases v with
  | str s =>
      unfold fragmentsOf at h
      dsimp only at h
      cases hlabel : legacyLabel (strip s.toList) with
      | none =>
          rw [hlabel] at h
          cases h
      | some label =>
          have hat : '@' ∈ strip s.toList := by
            rw [(legacyLabel_eq_some hlabel).1]
            exact List.mem_append_right _ List.mem_cons_self
          have hplaceholder : strip s.toList ∉ placeholders := by
            intro hmem
            have hnone : ∀ t ∈ placeholders, '@' ∉ t := by decide
            exact hnone _ hmem hat
          have hid : ¬ isOpaqueProducerId s.toList = true := by
            intro hid
            obtain ⟨a, b, hs, -⟩ := strip_split s.toList
            apply at_notMem_of_isOpaqueProducerId hid
            rw [hs]
            exact List.mem_append_right _ (List.mem_append_left _ hat)
          rw [classifyValue, if_neg hplaceholder, if_neg hid, hlabel]
          rfl
  | _ => cases h

theorem classifyPayload_obj (fields : List (String × Value)) :
    (classifyPayload (.obj fields) = .unclassified ↔
        .unclassified ∈ (topologyValues (.obj fields)).map classifyValue) ∧
      (classifyPayload (.obj fields) = .legacyLabel →
        .legacyLabel ∈ (topologyValues (.obj fields)).map classifyValue) ∧
      (classifyPayload (.obj fields) ≠ .unclassified → classifyPayload (.obj fields) ≠ .legacyLabel →
        .legacyLabel ∉ (topologyValues (.obj fields)).map classifyValue) := by
  unfold classifyPayload
  dsimp only
  split
  next h => simp [h]
  next h =>
    split
    next hlegacy => simp [h, hlegacy]
    next hlegacy =>
      split <;> simp [h, hlegacy]

theorem fragmentSet_eq_nil {payload : Value} (hclass : classifyPayload payload ≠ .unclassified)
    (hlegacy : classifyPayload payload ≠ .legacyLabel) : fragmentSet payload = [] := by
  cases payload with
  | obj fields =>
      rw [fragmentSet, List.filter_eq_nil_iff]
      intro f hf
      obtain ⟨v, hv, hf⟩ := List.mem_flatMap.mp hf
      have hmem : TopologyClass.legacyLabel ∈ (topologyValues (.obj fields)).map classifyValue :=
        List.mem_map.mpr ⟨v, hv, classifyValue_of_fragment hf⟩
      exact absurd hmem ((classifyPayload_obj fields).2.2 hclass hlegacy)
  | _ => exact absurd rfl hclass

end Perpetua.Topology

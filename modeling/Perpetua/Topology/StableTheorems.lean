import Perpetua.Topology.ShapeTheorems

/-!
# Sanitized payloads are stable

A topology field is left as a placeholder or an opaque identifier: the longest fragments are replaced
first, so a label is whole when its turn comes, and nothing replaces a part of what is left then.
-/

namespace Perpetua.Topology

open Json (Value)
open Redaction (UnicodeTables isWord)
open Regex (after after_append)
open Substitution (Matcher Place Run)

/-! ## Places in a text between spaces -/

/-- What begins and ends without a space lies in the text between the spaces. -/
theorem infix_of_trimmed {a core b x u z : Text} (h : a ++ (core ++ b) = x ++ (u ++ z)) (ha : Spaces a)
    (hb : Spaces b) (hu : Trimmed u) (hne : u ≠ []) :
    ∃ x' z', x = a ++ x' ∧ core = x' ++ (u ++ z') ∧ z = z' ++ b := by
  have hleft : ∃ x', x = a ++ x' ∧ core ++ b = x' ++ (u ++ z) := by
    rcases List.append_eq_append_iff.mp h with ⟨x', hx, hrest⟩ | ⟨a', ha', hrest⟩
    · exact ⟨x', hx, hrest⟩
    · cases a' with
      | nil => exact ⟨[], by rw [ha', List.append_nil, List.append_nil], hrest.symm⟩
      | cons c a' =>
          cases u with
          | nil => exact absurd rfl hne
          | cons d u =>
              obtain ⟨rfl, -⟩ := List.cons.inj hrest
              have hspace := ha d (by rw [ha']; simp)
              rw [hu.head d rfl] at hspace
              cases hspace
  obtain ⟨x', hx, hrest⟩ := hleft
  refine ⟨x', ?_⟩
  rw [← List.append_assoc] at hrest
  rcases List.append_eq_append_iff.mp hrest with ⟨c, hc, hb'⟩ | ⟨z', hcore, hz⟩
  · cases c using List.reverseRecOn with
    | nil =>
        rw [List.append_nil] at hc
        exact ⟨[], hx, by rw [List.append_nil, hc], hb'.symm⟩
    | append_singleton c d =>
        exfalso
        cases u using List.reverseRecOn with
        | nil => exact hne rfl
        | append_singleton u e =>
            have hlast : e = d := by
              rw [← List.append_assoc, ← List.append_assoc] at hc
              exact (List.append_inj' hc rfl).2 |> List.singleton_inj.mp
            have hspace := hb d (by rw [hb']; simp)
            rw [← hlast, hu.last e (by simp)] at hspace
            cases hspace
  · exact ⟨z', hx, by rw [hcore, List.append_assoc], hz⟩

theorem dropWhile_of_head {s : Text} (h : ∀ c ∈ s.head?, PyText.isSpace c = false) :
    s.dropWhile PyText.isSpace = s := by
  cases s with
  | nil => rfl
  | cons c s => exact List.dropWhile_cons_of_neg (by simp [h c rfl])

/-- Spaces around a text are stripped. -/
theorem strip_of_trimmed {a core b : Text} (ha : Spaces a) (hb : Spaces b) (hcore : Trimmed core) :
    strip (a ++ (core ++ b)) = core := by
  rw [strip, PyText.strip, String.toList_ofList, String.toList_ofList, List.dropWhile_append_of_pos ha]
  by_cases hne : core = []
  · subst hne
    rw [List.nil_append, List.dropWhile_eq_nil_iff.mpr hb]
    rfl
  · have hhead : ∀ c ∈ (core ++ b).head?, PyText.isSpace c = false := by
      rw [List.head?_append_of_ne_nil core hne]
      exact hcore.head
    rw [dropWhile_of_head hhead, List.reverse_append,
      List.dropWhile_append_of_pos fun c hc => hb c (List.mem_reverse.mp hc), dropWhile_of_head,
      List.reverse_reverse]
    rw [List.head?_reverse]
    exact hcore.last

theorem foldl_sub_of_self {ms : List Matcher} {s : Text}
    (h : ∀ m ∈ ms, Substitution.sub m legacyRedacted s = s) :
    ms.foldl (fun s m => Substitution.sub m legacyRedacted s) s = s := by
  induction ms with
  | nil => rfl
  | cons m ms ih =>
      rw [List.forall_mem_cons] at h
      rw [List.foldl_cons, h.1]
      exact ih h.2

/-- The characters of identifiers. -/
def idChars : Text := "ptp-0123456789abcdef".toList

theorem mem_idChars {t : Text} (h : isId t = true) : ∀ c ∈ t, c ∈ idChars := by
  have hhex : ∀ n < 128, (48 ≤ n ∧ n ≤ 57) ∨ (97 ≤ n ∧ n ≤ 102) → Char.ofNat n ∈ idChars := by decide
  intro c hc
  rcases mem_of_isId h c hc with hc | hc
  · exact List.all_iff_forall_prop.mp (by decide : idPrefix.all fun d => decide (d ∈ idChars)) c hc
  · have hrange := isHexDigit_range hc
    rw [← Char.ofNat_toNat c]
    exact hhex _ (by omega) hrange

/-- Letters, digits and dashes in ASCII, without the letters given. -/
def Letters (without : List Char) (t : Text) : Prop := ∀ c ∈ t, isAscii c = true ∧
  (c.isAlphanum || c == '-') = true ∧ c ∉ pathMarks ∧
    ∀ p ∈ without, (p == c || (p.isAlpha && c.isAlpha && p.toLower == c.toLower)) = false

def isLetterWithout (without : List Char) (c : Char) : Bool :=
  isAscii c && (c.isAlphanum || c == '-') && !pathMarks.contains c &&
    without.all fun p => !(p == c || (p.isAlpha && c.isAlpha && p.toLower == c.toLower))

theorem letters_of_all {without : List Char} {t : Text} (h : t.all (isLetterWithout without) = true) :
    Letters without t := by
  intro c hc
  have hletter := List.all_eq_true.mp h c hc
  simp only [isLetterWithout, Bool.and_eq_true, Bool.not_eq_true', List.contains_eq_mem,
    decide_eq_false_iff_not, List.all_eq_true] at hletter
  obtain ⟨⟨⟨hascii, halpha⟩, hmark⟩, hwithout⟩ := hletter
  exact ⟨hascii, halpha, hmark, hwithout⟩

section

variable [UnicodeTables]

theorem Letters.isPathChar {without : List Char} {t : Text} (h : Letters without t) :
    ∀ c ∈ t, isPathChar c = true := by
  intro c hc
  obtain ⟨hascii, hletter, -⟩ := h c hc
  have hlt : c.toNat < 0x80 := of_decide_eq_true hascii
  rw [Topology.isPathChar, isWord, if_pos hlt]
  revert hletter
  cases c.isAlphanum <;> simp +contextual

end

section

variable [CaseTables]

theorem SameText.exists_left {p q : Text} (h : SameText p q) {c : Char} (hc : c ∈ q) :
    ∃ d ∈ p, sameCase d c = true := by
  induction h with
  | nil => cases hc
  | @cons d e p q hcase _ ih =>
      rcases List.mem_cons.mp hc with rfl | hc
      · exact ⟨d, List.mem_cons_self, hcase⟩
      · obtain ⟨d', hd', hcase'⟩ := ih hc
        exact ⟨d', List.mem_cons_of_mem d hd', hcase'⟩

theorem SameText.exists_right {p q : Text} (h : SameText p q) {c : Char} (hc : c ∈ p) :
    ∃ d ∈ q, sameCase c d = true := by
  induction h with
  | nil => cases hc
  | @cons d e p q hcase _ ih =>
      rcases List.mem_cons.mp hc with rfl | hc
      · exact ⟨e, List.mem_cons_self, hcase⟩
      · obtain ⟨d', hd', hcase'⟩ := ih hc
        exact ⟨d', List.mem_cons_of_mem e hd', hcase'⟩

theorem SameText.head {p q : Text} (h : SameText p q)
    (hp : ∀ c ∈ p.head?, PyText.isSpace c = false) : ∀ c ∈ q.head?, PyText.isSpace c = false := by
  intro c hc
  cases h with
  | nil => cases hc
  | cons hcase _ =>
      obtain rfl := Option.some.inj hc
      rw [← isSpace_of_sameCase hcase]
      exact hp _ rfl

theorem SameText.trimmed {p q : Text} (h : SameText p q) (hp : Trimmed p) : Trimmed q := by
  refine ⟨SameText.head h hp.head, ?_⟩
  rw [← List.head?_reverse]
  apply SameText.head (List.forall₂_reverse_iff.mpr h)
  rw [List.head?_reverse]
  exact hp.last

theorem sameCase_ascii {p c : Char} (hp : isAscii p = true) (hc : isAscii c = true)
    (hne : (p == c || (p.isAlpha && c.isAlpha && p.toLower == c.toLower)) = false) :
    sameCase p c = false := by
  rw [sameCase, if_pos hp, if_pos hc, hne]

theorem Letters.sameCase {without : List Char} {t : Text} (h : Letters without t) {p : Char}
    (hp : p ∈ without) (hascii : isAscii p = true) : ∀ c ∈ t, sameCase p c = false :=
  fun c hc => sameCase_ascii hascii (h c hc).1 ((h c hc).2.2.2 p hp)

theorem sameCase_space {p c : Char} (hc : PyText.isSpace c = true) (hp : PyText.isSpace p = false) :
    sameCase p c = false := by
  by_contra h
  rw [Bool.not_eq_false] at h
  rw [isSpace_of_sameCase h, hc] at hp
  cases hp

variable [UnicodeTables]

/-- What is replaced for a fragment: the fragment itself for its marks of a path, or the fragment in
some case without `@`, as a word or behind a reference. -/
theorem place_cases {f : Text} (hf : IsFragment f) {m : Matcher} (hm : m ∈ matchersOf f) {s x g u : Text}
    (h : Place m none s x g u) :
    Trimmed u ∧ u.length = f.length ∧
      (u = f ∧ g = [] ∧ (∃ c ∈ u, c ∈ pathMarks) ∨
        '@' ∉ u ∧ (g = [] ∧ (after none x).any isPathChar = false ∧
            (∃ z, s = x ++ (u ++ z) ∧ z.head?.any isPathChar = false) ∨
          ∃ word behind, s = x ++ (word ++ behind) ∧
            (SameText "branch".toList word ∨ SameText "ref".toList word))) := by
  obtain ⟨hne, z, rfl, hmatch⟩ := h
  rcases mem_matchersOf hm with ⟨rfl, hmark⟩ | ⟨rfl | rfl, hat⟩
  · obtain ⟨rfl, rfl⟩ := plainAt_eq_some hmatch
    exact ⟨hf.trimmed, rfl, .inl ⟨rfl, rfl, hmark⟩⟩
  · obtain ⟨-, word, sep, t, behind, hs, hword, -, -, hsame, -, hkeep, hlen⟩ :=
      referenceAt_eq_some hmatch
    rw [← List.append_assoc word] at hs
    obtain ⟨rfl, hrest⟩ := List.append_inj hs hkeep
    obtain ⟨rfl, rfl⟩ := List.append_inj hrest hlen
    refine ⟨SameText.trimmed hsame hf.trimmed, hsame.length_eq.symm, .inr ⟨?_, .inr ?_⟩⟩
    · intro hmem
      obtain ⟨c, hc, hcase⟩ := SameText.exists_left hsame hmem
      rw [eq_of_sameCase hcase (by decide) (by decide)] at hc
      exact hat hc
    · exact ⟨word, sep ++ (u ++ z), by simp, hword⟩
  · obtain ⟨rfl, rfl, hlast, hbehind⟩ := wordAt_eq_some hmatch
    exact ⟨hf.trimmed, rfl, .inr ⟨hat, .inl ⟨rfl, hlast, z, rfl, hbehind⟩⟩⟩

/-! ## Texts that are replaced as a whole -/

/-- A text that no fragment replaces a part of: one word or one character, without the mark of a path
and without a reference to a branch. -/
structure Steady (core : Text) : Prop where
  trimmed : Trimmed core
  word : (∀ c ∈ core, isPathChar c = true) ∨ core.length ≤ 1
  marks : ∀ c ∈ core, c ∉ pathMarks
  branch : ∀ c ∈ core, sameCase 'h' c = false
  ref : (∀ c ∈ core, sameCase 'r' c = false) ∨ ∀ c ∈ core, sameCase 'f' c = false

/-- Between spaces, a steady text holds no reference. -/
theorem Steady.no_reference {core a b x word behind : Text} (h : Steady core) (ha : Spaces a)
    (hb : Spaces b) (heq : a ++ (core ++ b) = x ++ (word ++ behind)) :
    ¬ (SameText "branch".toList word ∨ SameText "ref".toList word) := by
  have hmem : ∀ d ∈ word, d ∈ core ∨ PyText.isSpace d = true := by
    intro d hd
    have hall : d ∈ a ++ (core ++ b) := by
      rw [heq]
      simp [hd]
    rcases List.mem_append.mp hall with hd | hd
    · exact .inr (ha d hd)
    · exact (List.mem_append.mp hd).imp_right (hb d)
  have hnone : ∀ p : Char, PyText.isSpace p = false → (∀ c ∈ core, sameCase p c = false) →
      ∀ d ∈ word, sameCase p d = false := by
    intro p hp hcore d hd
    rcases hmem d hd with hd | hd
    · exact hcore d hd
    · exact sameCase_space hd hp
  rintro (hbranch | href)
  · obtain ⟨d, hd, hcase⟩ := SameText.exists_right hbranch (c := 'h') (by decide)
    rw [hnone 'h' (by decide) h.branch d hd] at hcase
    cases hcase
  · rcases h.ref with hr | hf
    · obtain ⟨d, hd, hcase⟩ := SameText.exists_right href (c := 'r') (by decide)
      rw [hnone 'r' (by decide) hr d hd] at hcase
      cases hcase
    · obtain ⟨d, hd, hcase⟩ := SameText.exists_right href (c := 'f') (by decide)
      rw [hnone 'f' (by decide) hf d hd] at hcase
      cases hcase

/-- A steady text is replaced as a whole. -/
theorem Steady.place {core a b : Text} (h : Steady core) (ha : Spaces a) (hb : Spaces b) {f : Text}
    (hf : IsFragment f) {m : Matcher} (hm : m ∈ matchersOf f) {x g u : Text}
    (hplace : Place m none (a ++ (core ++ b)) x g u) : x = a ∧ g = [] ∧ u = core := by
  obtain ⟨htrim, -, hkind⟩ := place_cases hf hm hplace
  obtain ⟨hne, z, heq, -⟩ := hplace
  rcases hkind with ⟨-, -, c, hc, hmark⟩ | ⟨-, ⟨rfl, hlast, z', heq', hbehind⟩ | ⟨word, behind, hs, hword⟩⟩
  · exfalso
    have hmem : c ∈ a ++ (core ++ b) := by
      rw [heq]
      simp [hc]
    have hspace : PyText.isSpace c = false :=
      List.all_iff_forall_prop.mp (by decide : pathMarks.all fun d => decide (PyText.isSpace d = false)) c
        hmark
    rcases List.mem_append.mp hmem with hmem | hmem
    · rw [ha c hmem] at hspace
      cases hspace
    · rcases List.mem_append.mp hmem with hmem | hmem
      · exact h.marks c hmem hmark
      · rw [hb c hmem] at hspace
        cases hspace
  · obtain ⟨x', z'', rfl, hcore, rfl⟩ := infix_of_trimmed heq' ha hb htrim hne
    have hpos := List.length_pos_iff.mpr hne
    have hx' : x' = [] := by
      by_contra hx'
      have hlen := congrArg List.length hcore
      rw [List.length_append, List.length_append] at hlen
      have hpos' := List.length_pos_iff.mpr hx'
      rcases h.word with hall | hle
      · rw [after_append, Regex.after_eq_getLast hx', Option.any_some, hall _ (by
          rw [hcore]
          exact List.mem_append_left _ (List.getLast_mem hx'))] at hlast
        cases hlast
      · omega
    subst hx'
    have hz : z'' = [] := by
      cases z'' with
      | nil => rfl
      | cons d z'' =>
          exfalso
          rcases h.word with hall | hle
          · rw [List.cons_append, List.head?_cons, Option.any_some, hall d (by rw [hcore]; simp)]
              at hbehind
            cases hbehind
          · rw [hcore] at hle
            simp only [List.nil_append, List.length_append, List.length_cons] at hle
            omega
    subst hz
    refine ⟨List.append_nil a, rfl, ?_⟩
    rw [hcore, List.nil_append, List.append_nil]
  · exact absurd hword (h.no_reference ha hb hs)

theorem Steady.sub {core a b : Text} (h : Steady core) (ha : Spaces a) (hb : Spaces b) {f : Text}
    (hf : IsFragment f) {m : Matcher} (hm : m ∈ matchersOf f) :
    Substitution.sub m legacyRedacted (a ++ (core ++ b)) = a ++ (core ++ b) ∨
      Substitution.sub m legacyRedacted (a ++ (core ++ b)) = a ++ (legacyRedacted ++ b) := by
  have hrun := Substitution.run_sub legacyRedacted (proper_of_mem hf.ne_nil hm) (a ++ (core ++ b))
  by_cases hne : core = []
  · refine .inl (hrun.eq_self_of_no_place fun x g u hplace => hplace.1 ?_)
    rw [(h.place ha hb hf hm hplace).2.2, hne]
  · rcases hrun.single rfl hne fun x g u => h.place ha hb hf hm with heq | ⟨heq, -⟩
    · exact .inr heq
    · exact .inl heq

theorem Letters.steady {t : Text} (h : Letters ['h', 'f'] t) (ht : Trimmed t) : Steady t :=
  ⟨ht, .inl h.isPathChar, fun c hc => (h c hc).2.2.1, h.sameCase (by decide) (by decide),
    .inr (h.sameCase (by decide) (by decide))⟩

theorem steady_legacyRedacted : Steady legacyRedacted :=
  Letters.steady (letters_of_all (by decide)) (trimmed_of_all (by decide) (by decide))

/-- Scrubbing leaves a steady text or redacts all of it. -/
theorem Steady.foldl_sub {core a b : Text} (h : Steady core) (ha : Spaces a) (hb : Spaces b)
    {ms : List Matcher} (hms : ∀ m ∈ ms, ∃ f, IsFragment f ∧ m ∈ matchersOf f) :
    ms.foldl (fun s m => Substitution.sub m legacyRedacted s) (a ++ (core ++ b)) = a ++ (core ++ b) ∨
      ms.foldl (fun s m => Substitution.sub m legacyRedacted s) (a ++ (core ++ b)) =
        a ++ (legacyRedacted ++ b) := by
  induction ms generalizing core with
  | nil => exact .inl rfl
  | cons m ms ih =>
      rw [List.forall_mem_cons] at hms
      obtain ⟨f, hf, hm⟩ := hms.1
      rw [List.foldl_cons]
      rcases h.sub ha hb hf hm with heq | heq
      · rw [heq]
        exact ih h hms.2
      · rw [heq]
        exact .inr ((ih steady_legacyRedacted hms.2).elim id id)

/-- A fragment that is not shorter than a label matches nowhere in it. -/
theorem no_place_of_length_le {f value a b : Text} (hf : IsFragment f) {m : Matcher}
    (hm : m ∈ matchersOf f) (ha : Spaces a) (hb : Spaces b) (hat : '@' ∈ value) (hne : f ≠ value)
    (hle : value.length ≤ f.length) (x g u : Text) : ¬ Place m none (a ++ (value ++ b)) x g u := by
  intro hplace
  obtain ⟨htrim, hlen, hkind⟩ := place_cases hf hm hplace
  obtain ⟨hu, z, heq, -⟩ := hplace
  rw [← List.append_assoc x] at heq
  obtain ⟨x', z', -, hvalue, -⟩ := infix_of_trimmed heq ha hb htrim hu
  have hlength := congrArg List.length hvalue
  simp only [List.length_append] at hlength
  obtain rfl := List.length_eq_zero_iff.mp (show x'.length = 0 by omega)
  obtain rfl := List.length_eq_zero_iff.mp (show z'.length = 0 by omega)
  rw [List.nil_append, List.append_nil] at hvalue
  rcases hkind with ⟨rfl, -, -⟩ | ⟨hnone, -⟩
  · exact hne hvalue.symm
  · exact hnone (hvalue ▸ hat)

/-- A label is whole when its turn comes, and is redacted as a whole. -/
theorem scrubText_label {fragments : List Text} (hf : ∀ f ∈ fragments, IsFragment f)
    (hsorted : fragments.Pairwise fun f f' => f'.length ≤ f.length) {value a b : Text}
    (hmem : value ∈ fragments) (hat : '@' ∈ value) (ha : Spaces a) (hb : Spaces b) :
    scrubText fragments (a ++ (value ++ b)) = a ++ (legacyRedacted ++ b) := by
  have hmatchers : matchersOf value = [plainAt value] := by
    rw [matchersOf, if_neg fun h => h.1 hat, if_pos (.inl hat)]
  rw [scrubText]
  induction fragments with
  | nil => cases hmem
  | cons f fragments ih =>
      rw [List.forall_mem_cons] at hf
      rw [List.pairwise_cons] at hsorted
      rw [List.flatMap_cons, List.foldl_append]
      by_cases hfv : f = value
      · subst hfv
        have hsub : Substitution.sub (plainAt f) legacyRedacted (a ++ (f ++ b)) =
            a ++ (legacyRedacted ++ b) := by
          have hrun := Substitution.run_sub legacyRedacted (proper_plainAt hf.1.ne_nil)
            (a ++ (f ++ b))
          have hplace : ∀ x g u, Place (plainAt f) none (a ++ (f ++ b)) x g u → x = a ∧ g = [] ∧ u = f := by
            rintro x g u ⟨hu, z, heq, hmatch⟩
            obtain ⟨rfl, rfl⟩ := plainAt_eq_some hmatch
            rw [List.nil_append] at heq
            obtain ⟨x', z', rfl, hinfix, -⟩ := infix_of_trimmed heq ha hb hf.1.trimmed hu
            have hlength := congrArg List.length hinfix
            simp only [List.length_append] at hlength
            obtain rfl := List.length_eq_zero_iff.mp (show x'.length = 0 by omega)
            exact ⟨List.append_nil a, rfl, rfl⟩
          rcases hrun.single rfl hf.1.ne_nil hplace with heq | ⟨-, hnone⟩
          · exact heq
          · rw [plainAt, if_pos (List.isPrefixOf_iff_prefix.mpr (List.prefix_append f b))] at hnone
            cases hnone
        rw [hmatchers, List.foldl_cons, List.foldl_nil, hsub]
        refine (steady_legacyRedacted.foldl_sub ha hb ?_).elim id id
        intro m hm
        obtain ⟨f', hf', hm⟩ := List.mem_flatMap.mp hm
        exact ⟨f', hf.2 f' hf', hm⟩
      · have hvalue := (List.mem_cons.mp hmem).resolve_left (Ne.symm hfv)
        have hself : (matchersOf f).foldl (fun s m => Substitution.sub m legacyRedacted s)
            (a ++ (value ++ b)) = a ++ (value ++ b) := by
          apply foldl_sub_of_self
          intro m hm
          have hrun := Substitution.run_sub legacyRedacted (proper_of_mem hf.1.ne_nil hm)
            (a ++ (value ++ b))
          exact hrun.eq_self_of_no_place
            (no_place_of_length_le hf.1 hm ha hb hat hfv (hsorted.1 value hvalue))
        rw [hself]
        exact ih hf.2 hsorted.2 hvalue

/-! ## Topology values behind the scrub -/

theorem steady_of_mem_placeholders {t : Text} (h : t ∈ placeholders) : Steady t := by
  have hletters : ∀ t ∈ placeholders, t = ['?'] ∨ t.all (isLetterWithout ['h', 'f']) = true ∧
      t.head?.all (!PyText.isSpace ·) = true ∧ t.getLast?.all (!PyText.isSpace ·) = true := by
    decide
  rcases hletters t h with rfl | ⟨hletters, hhead, hlast⟩
  · exact ⟨trimmed_of_all (by decide) (by decide), .inr (by decide),
      List.all_iff_forall_prop.mp (by decide),
      fun c hc => by
        rw [List.mem_singleton.mp hc]
        exact sameCase_ascii (by decide) (by decide) (by decide),
      .inr fun c hc => by
        rw [List.mem_singleton.mp hc]
        exact sameCase_ascii (by decide) (by decide) (by decide)⟩
  · exact (letters_of_all hletters).steady (trimmed_of_all hhead hlast)

theorem steady_of_isId {t : Text} (h : isId t = true) : Steady t := by
  have hletters : Letters ['h', 'r'] t := fun c hc =>
    letters_of_all (t := idChars) (by decide) c (mem_idChars h c hc)
  have hspace : ∀ c ∈ t, PyText.isSpace c = false := fun c hc =>
    List.all_iff_forall_prop.mp (by decide : idChars.all fun d => decide (PyText.isSpace d = false))
      c (mem_idChars h c hc)
  exact ⟨⟨fun c hc => hspace c (List.mem_of_mem_head? hc), fun c hc => hspace c (List.mem_of_getLast? hc)⟩,
    .inl hletters.isPathChar, fun c hc => (hletters c hc).2.2.1,
    hletters.sameCase (by decide) (by decide), .inl (hletters.sameCase (by decide) (by decide))⟩

theorem Steady.scrubString {core a b : Text} (h : Steady core) (ha : Spaces a) (hb : Spaces b)
    {fragments : List Text} (hf : ∀ f ∈ fragments, IsFragment f) {s : String}
    (hs : s.toList = a ++ (core ++ b)) :
    scrubString fragments s = s ∨ (scrubString fragments s).toList = a ++ (legacyRedacted ++ b) := by
  have hmatchers : ∀ m ∈ fragments.flatMap matchersOf, ∃ f, IsFragment f ∧ m ∈ matchersOf f := by
    intro m hm
    obtain ⟨f, hmem, hm⟩ := List.mem_flatMap.mp hm
    exact ⟨f, hf f hmem, hm⟩
  have hfold := h.foldl_sub ha hb hmatchers
  rw [← hs] at hfold
  rw [Topology.scrubString, scrubText]
  refine hfold.imp (fun heq => ?_) fun heq => ?_
  · rw [heq, String.ofList_toList]
  · rw [heq, String.toList_ofList]

theorem classifyValue_redacted {a b : Text} (ha : Spaces a) (hb : Spaces b) {s : String}
    (hs : s.toList = a ++ (legacyRedacted ++ b)) : classifyValue (.str s) = .noTopology := by
  rw [classifyValue, hs, strip_of_trimmed ha hb steady_legacyRedacted.trimmed, if_pos (by decide)]

/-- What a topology value is behind the scrub. -/
theorem classifyValue_scrub {fragments : List Text} (hf : ∀ f ∈ fragments, IsFragment f)
    (hsorted : fragments.Pairwise fun f f' => f'.length ≤ f.length) {v v' : Value}
    (hv : ∀ f ∈ fragmentsOf v, f ≠ [] → f ∈ fragments) (hclass : classifyValue v ≠ .unclassified)
    (h : scrub fragments v = some v') :
    classifyValue v' = .noTopology ∨ classifyValue v' = .opaqueId := by
  cases v with
  | null =>
      cases h
      exact .inl rfl
  | str s =>
      cases h
      obtain ⟨a, b, hs, ha, hb, -⟩ := strip_split s.toList
      have hvalue := hclass
      rw [classifyValue] at hvalue
      split at hvalue
      next hplaceholder =>
        rcases (steady_of_mem_placeholders hplaceholder).scrubString ha hb hf hs with heq | heq
        · rw [heq, classifyValue, if_pos hplaceholder]
          exact .inl rfl
        · exact .inl (classifyValue_redacted ha hb heq)
      next hplaceholder =>
        split at hvalue
        next hid =>
          obtain ⟨core, b, hcore, hid', hb⟩ := isOpaqueProducerId_split hid
          have hnil : Spaces [] := by simp [Spaces]
          rcases (steady_of_isId hid').scrubString hnil hb hf hcore with heq | heq
          · rw [heq, classifyValue, if_neg hplaceholder, if_pos hid]
            exact .inr rfl
          · exact .inl (classifyValue_redacted hnil hb heq)
        · split at hvalue
          next hlabel =>
            obtain ⟨label, hlabel⟩ := Option.isSome_iff_exists.mp hlabel
            have hat : '@' ∈ strip s.toList := by
              rw [(legacyLabel_eq_some hlabel).1]
              exact List.mem_append_right _ List.mem_cons_self
            have hmem : strip s.toList ∈ fragments := by
              refine hv _ ?_ (List.ne_nil_of_mem hat)
              unfold fragmentsOf
              dsimp only
              rw [hlabel]
              exact List.mem_append_left _ List.mem_cons_self
            have hscrub := scrubText_label hf hsorted hmem hat ha hb
            rw [← hs] at hscrub
            exact .inl (classifyValue_redacted ha hb (String.toList_ofList.trans hscrub))
          · exact absurd rfl hvalue
  | _ => exact absurd rfl hclass

/-! ## Topology fields behind the scrub -/

/-- A text is left as it is, or holds the redaction. -/
theorem scrubText_self_or_infix {fragments : List Text} (hf : ∀ f ∈ fragments, IsFragment f) (s : Text) :
    scrubText fragments s = s ∨ legacyRedacted <:+: scrubText fragments s := by
  have hfold : ∀ ms : List Matcher, (∀ m ∈ ms, ∃ f, IsFragment f ∧ m ∈ matchersOf f) → ∀ s,
      ms.foldl (fun s m => Substitution.sub m legacyRedacted s) s = s ∨
        legacyRedacted <:+: ms.foldl (fun s m => Substitution.sub m legacyRedacted s) s := by
    intro ms
    induction ms with
    | nil => exact fun _ s => .inl rfl
    | cons m ms ih =>
        intro hms s
        rw [List.forall_mem_cons] at hms
        obtain ⟨f, hf, hm⟩ := hms.1
        have hrun := Substitution.run_sub legacyRedacted (proper_of_mem hf.ne_nil hm) s
        rw [List.foldl_cons]
        rcases ih hms.2 (Substitution.sub m legacyRedacted s) with hself | hinfix
        · rw [hself]
          exact hrun.eq_self_or_infix
        · exact .inr hinfix
  apply hfold
  intro m hm
  obtain ⟨f, hmem, hm⟩ := List.mem_flatMap.mp hm
  exact ⟨f, hf f hmem, hm⟩

/-- No key becomes a topology field. -/
theorem scrubString_eq_field {fragments : List Text} (hf : ∀ f ∈ fragments, IsFragment f) {key : String}
    (h : scrubString fragments key ∈ topologyFields) : key ∈ topologyFields := by
  rcases scrubText_self_or_infix hf key.toList with hself | hinfix
  · rwa [scrubString, hself, String.ofList_toList] at h
  · have hnone : ∀ field ∈ topologyFields, ¬ legacyRedacted <:+: field.toList := by decide
    have hin := hnone _ h
    rw [scrubString, String.toList_ofList] at hin
    exact absurd hinfix hin

/-- The values of the topology fields of one object. -/
theorem fieldValues_scrub {fragments : List Text} (hf : ∀ f ∈ fragments, IsFragment f)
    (seen : List String) (fields : List (String × Value)) {fields' : List (String × Value)}
    (h : scrubFields fragments seen fields = some fields') :
    ∀ w' ∈ (fields'.filter fun kv => kv.1 ∈ topologyFields).map Prod.snd,
      ∃ w ∈ (fields.filter fun kv => kv.1 ∈ topologyFields).map Prod.snd, scrub fragments w = some w' := by
  induction fields generalizing seen fields' with
  | nil =>
      cases h
      simp
  | cons kv fields ih =>
      obtain ⟨key, v⟩ := kv
      simp only [scrubFields] at h
      split at h
      · cases h
      · cases hv : scrub fragments v with
        | none =>
            rw [hv] at h
            cases h
        | some v' =>
            rw [hv] at h
            obtain ⟨rest', hrest, rfl⟩ := Option.map_eq_some_iff.mp h
            intro w' hw'
            obtain ⟨kv', hmem, rfl⟩ := List.mem_map.mp hw'
            obtain ⟨hmem, hfield⟩ := List.mem_filter.mp hmem
            rcases List.mem_cons.mp hmem with rfl | hmem
            · have hkey := scrubString_eq_field hf (of_decide_eq_true hfield)
              exact ⟨v, List.mem_map.mpr ⟨(key, v),
                List.mem_filter.mpr ⟨List.mem_cons_self, by simpa using hkey⟩, rfl⟩, hv⟩
            · obtain ⟨w, hw, hscrub⟩ := ih _ hrest kv'.2
                (List.mem_map.mpr ⟨kv', List.mem_filter.mpr ⟨hmem, hfield⟩, rfl⟩)
              obtain ⟨kv, hkv, rfl⟩ := List.mem_map.mp hw
              obtain ⟨hkv, hkvfield⟩ := List.mem_filter.mp hkv
              exact ⟨kv.2, List.mem_map.mpr ⟨kv,
                List.mem_filter.mpr ⟨List.mem_cons_of_mem _ hkv, hkvfield⟩, rfl⟩, hscrub⟩

mutual
/-- The topology values of a scrubbed value are the scrubbed topology values. -/
theorem topologyValues_scrub {fragments : List Text} (hf : ∀ f ∈ fragments, IsFragment f) :
    (v : Value) → {v' : Value} → scrub fragments v = some v' → ∀ w' ∈ topologyValues v',
      ∃ w ∈ topologyValues v, scrub fragments w = some w'
  | .null, _, h => by
      cases h
      simp [topologyValues]
  | .bool _, _, h => by
      cases h
      simp [topologyValues]
  | .num _, _, h => by
      cases h
      simp [topologyValues]
  | .str _, _, h => by
      cases h
      simp [topologyValues]
  | .arr items, _, h => by
      obtain ⟨items', hitems, rfl⟩ := Option.map_eq_some_iff.mp h
      exact topologyValues_scrubItems hf items hitems
  | .obj fields, _, h => by
      obtain ⟨fields', hfields, rfl⟩ := Option.map_eq_some_iff.mp h
      intro w' hw'
      rw [topologyValues] at hw' ⊢
      rcases List.mem_append.mp hw' with hw' | hw'
      · obtain ⟨w, hw, hscrub⟩ := fieldValues_scrub hf [] fields hfields w' hw'
        exact ⟨w, List.mem_append_left _ hw, hscrub⟩
      · obtain ⟨w, hw, hscrub⟩ := topologyValues_scrubFields hf [] fields hfields w' hw'
        exact ⟨w, List.mem_append_right _ hw, hscrub⟩

theorem topologyValues_scrubItems {fragments : List Text} (hf : ∀ f ∈ fragments, IsFragment f) :
    (items : List Value) → {items' : List Value} → scrubItems fragments items = some items' →
      ∀ w' ∈ topologyValuesOfItems items', ∃ w ∈ topologyValuesOfItems items,
        scrub fragments w = some w'
  | [], _, h => by
      cases h
      simp [topologyValuesOfItems]
  | v :: items, _, h => by
      rw [scrubItems] at h
      cases hv : scrub fragments v with
      | none =>
          rw [hv] at h
          cases h
      | some v' =>
          rw [hv] at h
          obtain ⟨items', hitems, rfl⟩ := Option.map_eq_some_iff.mp h
          intro w' hw'
          rw [topologyValuesOfItems] at hw' ⊢
          rcases List.mem_append.mp hw' with hw' | hw'
          · obtain ⟨w, hw, hscrub⟩ := topologyValues_scrub hf v hv w' hw'
            exact ⟨w, List.mem_append_left _ hw, hscrub⟩
          · obtain ⟨w, hw, hscrub⟩ := topologyValues_scrubItems hf items hitems w' hw'
            exact ⟨w, List.mem_append_right _ hw, hscrub⟩

theorem topologyValues_scrubFields {fragments : List Text} (hf : ∀ f ∈ fragments, IsFragment f) :
    (seen : List String) → (fields : List (String × Value)) → {fields' : List (String × Value)} →
      scrubFields fragments seen fields = some fields' →
      ∀ w' ∈ topologyValuesOfFields fields', ∃ w ∈ topologyValuesOfFields fields,
        scrub fragments w = some w'
  | _, [], _, h => by
      cases h
      simp [topologyValuesOfFields]
  | seen, (key, v) :: fields, _, h => by
      simp only [scrubFields] at h
      split at h
      · cases h
      · cases hv : scrub fragments v with
        | none =>
            rw [hv] at h
            cases h
        | some v' =>
            rw [hv] at h
            obtain ⟨fields', hfields, rfl⟩ := Option.map_eq_some_iff.mp h
            intro w' hw'
            rw [topologyValuesOfFields] at hw' ⊢
            rcases List.mem_append.mp hw' with hw' | hw'
            · obtain ⟨w, hw, hscrub⟩ := topologyValues_scrub hf v hv w' hw'
              exact ⟨w, List.mem_append_left _ hw, hscrub⟩
            · obtain ⟨w, hw, hscrub⟩ := topologyValues_scrubFields hf _ fields hfields w' hw'
              exact ⟨w, List.mem_append_right _ hw, hscrub⟩
end

/-! ## Sanitizing twice -/

/-- The class of a scrubbed payload. -/
theorem classifyPayload_scrub {order : SetOrder} {payload result : Value}
    (hclass : classifyPayload payload ≠ .unclassified)
    (h : scrub (legacyFragments order payload) payload = some result) :
    classifyPayload result ≠ .unclassified ∧ classifyPayload result ≠ .legacyLabel := by
  cases payload with
  | obj fields =>
      have hf : ∀ f ∈ legacyFragments order (.obj fields), IsFragment f :=
        fun f hf => isFragment_of_mem (mem_legacyFragments.mp hf)
      have hvalues : ∀ v' ∈ topologyValues result,
          classifyValue v' = .noTopology ∨ classifyValue v' = .opaqueId := by
        intro v' hv'
        obtain ⟨v, hv, hscrub⟩ := topologyValues_scrub hf _ h v' hv'
        refine classifyValue_scrub hf (pairwise_legacyFragments order _) ?_ ?_ hscrub
        · intro f hmem hne
          apply mem_legacyFragments.mpr
          exact List.mem_filter.mpr ⟨List.mem_flatMap.mpr ⟨v, hv, hmem⟩, decide_eq_true hne⟩
        · intro hunclassified
          apply hclass
          exact (classifyPayload_obj fields).1.mpr (List.mem_map.mpr ⟨v, hv, hunclassified⟩)
      obtain ⟨fields', -, rfl⟩ := Option.map_eq_some_iff.mp h
      constructor
      · intro hunclassified
        obtain ⟨v', hv', hv⟩ := List.mem_map.mp ((classifyPayload_obj fields').1.mp hunclassified)
        rcases hvalues v' hv' with hnone | hid
        · rw [hnone] at hv
          cases hv
        · rw [hid] at hv
          cases hv
      · intro hlegacy
        obtain ⟨v', hv', hv⟩ := List.mem_map.mp ((classifyPayload_obj fields').2.1 hlegacy)
        rcases hvalues v' hv' with hnone | hid
        · rw [hnone] at hv
          cases hv
        · rw [hid] at hv
          cases hv
  | _ => exact absurd rfl hclass

/-- The class of a sanitized payload. -/
theorem classifyPayload_sanitized {order : SetOrder} {payload result : Value}
    (h : sanitizeTopology order payload = some result) :
    classifyPayload result ≠ .unclassified ∧ classifyPayload result ≠ .legacyLabel := by
  obtain ⟨hresult, -⟩ := Option.filter_eq_some_iff.mp h
  cases hclass : classifyPayload payload with
  | unclassified =>
      rw [hclass] at hresult
      cases hresult
  | legacyLabel =>
      rw [hclass] at hresult
      exact classifyPayload_scrub (by simp [hclass]) hresult
  | opaqueId =>
      rw [hclass] at hresult
      cases hresult
      simp [hclass]
  | noTopology =>
      rw [hclass] at hresult
      cases hresult
      simp [hclass]

/-- A payload without a legacy label is left as it is. -/
theorem sanitizeTopology_of_class {order : SetOrder} {payload : Value}
    (hclass : classifyPayload payload ≠ .unclassified) (hlegacy : classifyPayload payload ≠ .legacyLabel) :
    sanitizeTopology order payload =
      (some payload).filter fun r => !containsPattern legacyMentionAt r := by
  rw [sanitizeTopology]
  cases h : classifyPayload payload with
  | unclassified => exact absurd h hclass
  | legacyLabel => exact absurd h hlegacy
  | opaqueId => rfl
  | noTopology => rfl

theorem sanitizeTopology_sanitized {order : SetOrder} (order' : SetOrder) {payload result : Value}
    (h : sanitizeTopology order payload = some result) :
    sanitizeTopology order' result = some result := by
  obtain ⟨hclass, hlegacy⟩ := classifyPayload_sanitized h
  rw [sanitizeTopology_of_class hclass hlegacy]
  exact Option.filter_eq_some_iff.mpr ⟨rfl, (Option.filter_eq_some_iff.mp h).2⟩

/-- What is sanitized or exported is clean, and sanitizing or exporting it again changes nothing,
whatever the order in which sets are iterated. -/
theorem sanitizeTopology_portablePayload_stable (order order' : SetOrder) (payload : Value) :
    (∀ result, sanitizeTopology order payload = some result →
      classifyPayload result ≠ .legacyLabel ∧ classifyPayload result ≠ .unclassified ∧
        containsPattern legacyMentionAt result = false ∧
        sanitizeTopology order' result = some result) ∧
    ∀ result, portablePayload order payload = some result →
      classifyPayload result ≠ .legacyLabel ∧ classifyPayload result ≠ .unclassified ∧
        containsPattern legacyMentionAt result = false ∧
        containsPattern privatePathAt result = false ∧
        sanitizeTopology order' result = some result ∧
        portablePayload order' result = some result := by
  have hsanitized : ∀ result, sanitizeTopology order payload = some result →
      classifyPayload result ≠ .legacyLabel ∧ classifyPayload result ≠ .unclassified ∧
        containsPattern legacyMentionAt result = false ∧
        sanitizeTopology order' result = some result := by
    intro result h
    obtain ⟨hclass, hlegacy⟩ := classifyPayload_sanitized h
    exact ⟨hlegacy, hclass, by simpa using (Option.filter_eq_some_iff.mp h).2,
      sanitizeTopology_sanitized order' h⟩
  refine ⟨hsanitized, fun result h => ?_⟩
  obtain ⟨h, hpath⟩ := Option.filter_eq_some_iff.mp h
  obtain ⟨hlegacy, hclass, hmention, hagain⟩ := hsanitized result h
  refine ⟨hlegacy, hclass, hmention, by simpa using hpath, hagain, ?_⟩
  rw [portablePayload, hagain]
  exact Option.filter_eq_some_iff.mpr ⟨rfl, hpath⟩

end

theorem sanitizeTopology_stable_topic : ∃ result,
    @sanitizeTopology asciiTables asciiCases listed (branchNote "topic") = some result ∧
      @sanitizeTopology asciiTables asciiCases listed result = some result := by
  have hstable := @sanitizeTopology_portablePayload_stable asciiCases asciiTables listed listed
    (branchNote "topic")
  obtain ⟨-, -, -, hagain⟩ := hstable.1 _ sanitizeTopology_topic
  exact ⟨_, sanitizeTopology_topic, hagain⟩

end Perpetua.Topology

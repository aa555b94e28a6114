import Perpetua.Lib.RegexSub
import Perpetua.Redaction

/-!
# What redaction leaves of a text

No pattern has a match in a redacted text, so redacting it again changes nothing.
-/

namespace Perpetua.Redaction

open Regex

/-! ## The patterns and the marker -/

theorem toList_redactedMarker :
    redactedMarker.toList = ['[', 'R', 'E', 'D', 'A', 'C', 'T', 'E', 'D', ']'] := by decide

/-- The marker is shorter than every secret. -/
theorem blocks_of_long {r : Pattern} (hopen : Excludes '[' r) (hclose : Excludes ']' r)
    (hlong : 10 < minLength r) : Blocks redactedMarker.toList r := by
  rw [toList_redactedMarker]
  apply Blocks.of_short (by simp) (by omega)
  · intro c hc
    rcases hc with hc | hc
    · cases hc
      exact hopen
    · cases hc
      exact hclose
  · exact hlong

/-- Tables with nothing beyond ASCII. -/
@[reducible] def plainTables : UnicodeTables := ⟨fun _ => false, fun _ => false⟩

variable [UnicodeTables]

/-- The patterns in the order in which `redact_text` goes through them. -/
def passes : List Pattern := secretPatterns.map Prod.snd ++ [emailPattern]

theorem redactText_eq (value : String) :
    redactText value = passes.foldl (fun s r => sub r redactedMarker s) value := by
  simp only [redactText, passes, List.foldl_append, List.foldl_map, List.foldl_cons, List.foldl_nil]

theorem containsSecret_eq_false {s : String} :
    containsSecret s = false ↔ ∀ p ∈ secretPatterns, search p.2 s = false := by
  simp only [containsSecret, List.any_eq_false, Bool.not_eq_true]

/-- There is no at sign in the marker. -/
theorem blocks_email : Blocks redactedMarker.toList emailPattern := by
  rw [toList_redactedMarker]
  refine Blocks.of_lacking (by simp) ?_ ?_ (· == '@') (some 1) ?_ Nat.one_pos (by simp)
  · simp [emailPattern, wordBoundary, minLength, lit]
  · intro c hc
    rcases hc with hc | hc
    · cases hc
      simp [emailPattern, wordBoundary, Excludes, lit, alnumOr]
    · cases hc
      simp [emailPattern, wordBoundary, Excludes, lit, alnumOr]
  · simp [emailPattern, lit]

/-- The pattern of a Google key has no boundaries. -/
theorem enclosed_google : ∀ r ∈ passes.head?, Enclosed redactedMarker none r := by
  intro r hr
  cases hr
  constructor
  · refine ⟨_, rfl, ?_⟩
    simp [Plain, lit]
  · apply blocks_of_long
    · simp [Excludes, lit, alnumOr]
    · simp [Excludes, lit, alnumOr]
    · simp [minLength, lit]

/-- The other patterns match between word boundaries. -/
theorem enclosed_worded : ∀ r ∈ passes.tail, Enclosed redactedMarker (some isWord) r := by
  have hshape : ∀ r ∈ passes.tail, r = framed (some isWord) r.tail.dropLast ∧ Plain r.tail.dropLast := by
    simp [passes, secretPatterns, framed, lit, wordBoundary, anyCase, Plain, emailPattern]
  have hblocks : ∀ r ∈ passes.tail, Blocks redactedMarker.toList r := by
    simp only [passes, secretPatterns, List.map_cons, List.cons_append, List.tail_cons, List.map_nil,
      List.nil_append, List.forall_mem_cons]
    refine ⟨?_, ?_, ?_, ?_, ?_, blocks_email, by simp⟩
    all_goals
      apply blocks_of_long
      · simp [Excludes, lit, alnumOr, anyCase, wordBoundary, isDecimal, PyText.isSpace, foldedLetters]
      · simp [Excludes, lit, alnumOr, anyCase, wordBoundary, isDecimal, PyText.isSpace, foldedLetters]
      · simp [minLength, lit, wordBoundary, anyCase]
  intro r hr
  obtain ⟨hframed, hplain⟩ := hshape r hr
  exact ⟨⟨_, hframed, hplain⟩, hblocks r hr⟩

/-! ## Redacted texts -/

theorem passes_eq_cons : ∃ google, passes = google :: passes.tail ∧ google ∈ passes.head? :=
  ⟨_, rfl, rfl⟩

theorem search_sub_of_mem_tail {r : Pattern} (hr : r ∈ passes.tail) {edge : Option (Char → Bool)}
    {q : Pattern} (hq : Enclosed redactedMarker edge q) (hedge : edge = none ∨ edge = some isWord)
    (text : String) (h : search q text = false) : search q (sub r redactedMarker text) = false := by
  have hr := enclosed_worded r hr
  refine hq.search_sub ?_ hr.blocks.pos h
  rcases hedge with rfl | rfl
  · exact sided_none r
  · obtain ⟨body, rfl, hbody⟩ := hr.framed
    exact sided_framed hbody

/-- Every pass after another one is between word boundaries, and so makes no match of it. -/
theorem passes_pairwise : passes.Pairwise fun q r =>
    ∀ text, search q text = false → search q (sub r redactedMarker text) = false := by
  obtain ⟨google, hpasses, hgoogle⟩ := passes_eq_cons
  rw [hpasses, List.pairwise_cons]
  constructor
  · intro r hr text
    exact search_sub_of_mem_tail hr (enclosed_google google hgoogle) (Or.inl rfl) text
  · refine List.pairwise_of_forall_mem_list fun q hq r hr text => ?_
    exact search_sub_of_mem_tail hr (enclosed_worded q hq) (Or.inr rfl) text

theorem search_redactText (value : String) : ∀ r ∈ passes, search r (redactText value) = false := by
  rw [redactText_eq]
  refine search_foldl_sub ?_ passes_pairwise value
  obtain ⟨google, hpasses, hgoogle⟩ := passes_eq_cons
  rw [hpasses, List.forall_mem_cons]
  constructor
  · exact (enclosed_google google hgoogle).search_sub_self
  · exact fun r hr => (enclosed_worded r hr).search_sub_self

/-- No pattern has a match in a redacted text, and redacting it again does not change it. -/
theorem redactText_complete (value : String) :
    (∀ p ∈ secretPatterns, search p.2 (redactText value) = false) ∧
      containsSecret (redactText value) = false ∧
      search emailPattern (redactText value) = false ∧
      redactText (redactText value) = redactText value := by
  have hclean := search_redactText value
  have hsecret : ∀ p ∈ secretPatterns, search p.2 (redactText value) = false := fun p hp =>
    hclean p.2 (List.mem_append_left _ (List.mem_map_of_mem hp))
  have hemail := hclean emailPattern (List.mem_append_right _ List.mem_cons_self)
  refine ⟨hsecret, ?_, hemail, ?_⟩
  · exact containsSecret_eq_false.mpr hsecret
  · rw [redactText_eq (redactText value)]
    exact foldl_sub_of_search_false hclean

end Perpetua.Redaction

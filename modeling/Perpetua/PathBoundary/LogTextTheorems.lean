import Perpetua.Lib.RegexCover
import Perpetua.PathBoundary.LogText
import Perpetua.Redaction.TextTheorems

/-!
# What log redaction leaves of a text

The patterns of `redactLogText` are those of `redact_text` except for two: the Google key has
boundaries on both sides, and the separator of a bearer token is JavaScript's whitespace.
-/

namespace Perpetua.PathBoundary

open Regex
open Redaction (alnumOr anyCase redactedMarker plainTables)

/-! ## ASCII texts -/

def Ascii (c : Char) : Prop := c.toNat < 0x80

theorem ascii_of_all {s : List Char} (h : s.all (fun c => decide (c.toNat < 0x80)) = true) :
    ∀ c ∈ s, c.toNat < 0x80 :=
  fun c hc => of_decide_eq_true (List.all_eq_true.mp h c hc)

theorem ascii_of_isWord {c : Char} (h : isWord c) : Ascii c := by
  rw [isWord, Bool.or_eq_true, PyText.isAlphanum_iff, beq_iff_eq] at h
  rcases h with h | rfl
  · unfold Ascii
    omega
  · unfold Ascii
    decide

theorem isWord_plain : @Redaction.isWord plainTables = isWord := by
  funext c
  unfold Redaction.isWord
  split
  · rfl
  · rename_i hlarge
    cases hword : isWord c with
    | false => rfl
    | true => exact absurd (ascii_of_isWord hword) hlarge

theorem isDecimal_plain : @Redaction.isDecimal plainTables = Char.isDigit := by
  funext c
  unfold Redaction.isDecimal
  split
  · rfl
  · rename_i hlarge
    cases hdigit : c.isDigit with
    | false => rfl
    | true =>
        rw [PyText.isDigit_iff] at hdigit
        omega

section

variable (tables : Redaction.UnicodeTables)

theorem isWord_tables {c : Char} (h : Ascii c) :
    @Redaction.isWord tables c = @Redaction.isWord plainTables c := by
  exact (if_pos h).trans (if_pos h).symm

theorem isDecimal_tables {c : Char} (h : Ascii c) :
    @Redaction.isDecimal tables c = @Redaction.isDecimal plainTables c := by
  exact (if_pos h).trans (if_pos h).symm

/-- On ASCII the tables do not matter. -/
theorem agree_tables : List.Forall₂ (fun p p' => Agree Ascii Ascii p.2 p'.2)
    (@Redaction.secretPatterns tables) (@Redaction.secretPatterns plainTables) := by
  have hword : Agree Ascii Ascii [@Redaction.wordBoundary tables] [@Redaction.wordBoundary plainTables] :=
    .boundary (fun _ hc => isWord_tables tables hc) .nil
  have hends : ∀ r : Pattern, Agree Ascii Ascii
      (@Redaction.wordBoundary tables :: (r ++ [@Redaction.wordBoundary tables]))
      (@Redaction.wordBoundary plainTables :: (r ++ [@Redaction.wordBoundary plainTables])) :=
    fun r => hword.append ((Agree.refl r).append hword)
  refine .cons (.refl _) (.cons ?_ (.cons ?_ (.cons ?_ (.cons ?_ (.cons ?_ .nil)))))
  · exact hword.append (.rep (fun _ hc => isDecimal_tables tables hc)
      ((Agree.refl (lit ":" ++ [Item.rep (alnumOr ['_', '-']) 30 none])).append hword))
  · exact hends (lit "ghp_" ++ [Item.rep (alnumOr []) 20 none])
  · exact hends (lit "sk-" ++ [Item.rep (alnumOr []) 20 none])
  · exact hends (lit "sk-ant-" ++ [Item.rep (alnumOr ['_', '-']) 20 none])
  · exact hends ("Bearer".toList.map anyCase ++ [Item.rep PyText.isSpace 1 none,
      Item.rep (alnumOr (['.', '_', '-'] ++ Redaction.foldedLetters)) 20 none])

theorem containsSecret_tables {text : String} (h : ∀ c ∈ text.toList, Ascii c) :
    @Redaction.containsSecret tables text = @Redaction.containsSecret plainTables text := by
  have hpatterns := agree_tables tables
  unfold Redaction.containsSecret
  generalize @Redaction.secretPatterns tables = ps, @Redaction.secretPatterns plainTables = ps' at hpatterns
  induction hpatterns with
  | nil => rfl
  | cons hagree _ ih => rw [List.any_cons, List.any_cons, search_congr hagree h, ih]

end

attribute [local instance] plainTables

/-! ## The passes -/

/-- A pattern of `redaction.py`. -/
def pattern [Redaction.UnicodeTables] (name : String) : Pattern :=
  (Redaction.secretPatterns.lookup name).getD []

/-- The patterns that the two lists have in common. -/
def common : List Pattern := secretPatterns.tail.take 4

def bearerPattern : Pattern := secretPatterns.getLastD []

theorem secretPatterns_eq : secretPatterns = googlePattern :: (common ++ [bearerPattern]) := rfl

theorem common_eq : common = ((@Redaction.secretPatterns plainTables).tail.take 4).map Prod.snd := by
  simp [common, secretPatterns, Redaction.secretPatterns, wordBoundary, Redaction.wordBoundary,
    isWord_plain, isDecimal_plain]

theorem emailPattern_eq : emailPattern = @Redaction.emailPattern plainTables := by
  simp [emailPattern, Redaction.emailPattern, wordBoundary, Redaction.wordBoundary, isWord_plain]

theorem map_secretPatterns : (@Redaction.secretPatterns plainTables).map Prod.snd =
    pattern "google_api_key" :: (common ++ [pattern "bearer_token"]) := by
  rw [common_eq]
  rfl

theorem tail_passes : (@Redaction.passes plainTables).tail =
    common ++ [pattern "bearer_token", emailPattern] := by
  rw [Redaction.passes, map_secretPatterns, ← emailPattern_eq, List.cons_append, List.tail_cons,
    List.append_assoc]
  rfl

theorem enclosed_google : Enclosed redactedMarker none (pattern "google_api_key") :=
  Redaction.enclosed_google _ rfl

/-- The other patterns of `redaction.py` match between word boundaries, and so does the e-mail one. -/
theorem enclosed_worded {r : Pattern} (hr : r ∈ common ++ [pattern "bearer_token", emailPattern]) :
    Enclosed redactedMarker (some isWord) r := by
  rw [← isWord_plain]
  rw [← tail_passes] at hr
  exact Redaction.enclosed_worded r hr

/-- Every pass is between boundaries and matches no empty text. -/
theorem sided_of_mem {r : Pattern} (hr : r ∈ secretPatterns ++ [emailPattern]) :
    Sided (some isWord) r ∧ 0 < minLength r := by
  rw [secretPatterns_eq] at hr
  simp only [List.cons_append, List.append_assoc, List.mem_cons, List.mem_append, List.not_mem_nil,
    or_false, List.nil_append] at hr
  rcases hr with rfl | hr | rfl | rfl
  · constructor
    · exact sided_framed (r := lit "AIza" ++ [Item.rep (alnumOr ['_', '-']) 20 none]) (by simp [Plain, lit])
    · simp [googlePattern, minLength, lit, wordBoundary]
  · have henclosed := enclosed_worded (List.mem_append_left _ hr)
    exact ⟨henclosed.sided, henclosed.blocks.pos⟩
  · constructor
    · exact sided_framed (r := "Bearer".toList.map anyCase ++ [Item.rep isSpace 1 none,
        Item.rep (alnumOr ['.', '_', '-']) 20 none]) (by simp [Plain, anyCase])
    · simp [bearerPattern, secretPatterns, minLength, anyCase, wordBoundary]
  · have henclosed := enclosed_worded (r := emailPattern) (by simp)
    exact ⟨henclosed.sided, henclosed.blocks.pos⟩

/-! ## Assignments -/

/-- What an assignment's marker replaces: the rest of a line, after an equals sign or whitespace. -/
structure LineEnd (last : Option Char) (m rest : List Char) : Prop where
  before : ∃ c, last = some c ∧ (c = '=' ∨ isSpace c)
  next : ∀ c ∈ rest.head?, isLineTerminator c

theorem end_of_assignmentTo {key : String} {last : Option Char} {g rest : List Char}
    (h : Matches (assignmentTo key) last g rest) : ∃ c, after last g = some c ∧ (c = '=' ∨ isSpace c) := by
  obtain ⟨v, _, rfl, hv, w, x, rfl, hw, -, -, hx⟩ := matches_append.mp h
  obtain rfl : x = [] := hx
  rw [List.append_nil, after_append]
  cases w with
  | nil =>
      obtain ⟨c, hc, heq⟩ := last_of_matches Nat.one_pos hv
      exact ⟨c, hc, Or.inl (eq_of_beq heq)⟩
  | cons d w =>
      rw [after_eq_getLast (List.cons_ne_nil d w)]
      exact ⟨_, rfl, Or.inr (hw _ (List.getLast_mem _))⟩

theorem assignment_eq_some {last : Option Char} {s group rest : List Char}
    (h : assignment last s = some (group, rest)) : ∃ m, s = group ++ (m ++ rest) ∧ m ≠ [] ∧
      LineEnd (after last group) m rest := by
  rw [assignment] at h
  split at h
  · obtain ⟨key, -, hkey⟩ := List.exists_of_findSome?_eq_some h
    obtain ⟨rest', hmatch, heq⟩ := Option.map_eq_some_iff.mp hkey
    obtain ⟨u, rfl, hu⟩ := matches_of_matchAt hmatch
    obtain ⟨g, _, rfl, hg, w, y, rfl, hw, hmin, hmax, hy⟩ := matches_append.mp hu
    obtain rfl : y = [] := hy
    obtain ⟨d, rfl⟩ := List.length_eq_one_iff.mp (Nat.le_antisymm (hmax 1 rfl) hmin)
    obtain ⟨hgroup, rfl⟩ := Prod.mk.inj heq
    have hlength : (g ++ ([d] ++ []) ++ rest').length - rest'.length - 1 = g.length := by
      simp only [List.length_append, List.length_cons, List.length_nil]
      omega
    rw [hlength, List.append_assoc, List.take_left] at hgroup
    subst hgroup
    refine ⟨d :: rest'.takeWhile fun c => !isLineTerminator c, ?_, List.cons_ne_nil _ _, ?_, ?_⟩
    · simp only [List.append_assoc, List.cons_append, List.nil_append,
        List.takeWhile_append_dropWhile]
    · exact end_of_assignmentTo hg
    · intro c hc
      have hnot := List.head?_dropWhile_not (fun c => !isLineTerminator c) rest'
      rw [Option.mem_def.mp hc] at hnot
      simpa using hnot
  · cases h

theorem redactAssignments_skip (last : Option Char) (u s : List Char) :
    redactAssignments last u.length (u ++ s) = redactAssignments (after last u) 0 s := by
  induction u generalizing last with
  | nil => rfl
  | cons c u ih => exact ih (some c)

theorem keep_append {piece : Option Char → List Char → List Char → Prop}
    {repl g s s' : List Char} {last : Option Char}
    (h : Rewritten (fun _ _ => True) piece repl (after last g) s s') :
    Rewritten (fun _ _ => True) piece repl last (g ++ s) (g ++ s') := by
  induction g generalizing last with
  | nil => exact h
  | cons c g ih => exact .keep trivial (ih h)

theorem rewritten_redactAssignments (last : Option Char) (s : List Char) :
    Rewritten (fun _ _ => True) LineEnd redactedMarker.toList last s (redactAssignments last 0 s) := by
  induction hn : s.length using Nat.strong_induction_on generalizing last s with
  | _ n ih =>
      cases s with
      | nil => exact .nil
      | cons c s =>
          rw [redactAssignments]
          cases hassign : assignment last (c :: s) with
          | none => exact .keep trivial (ih s.length (by simp [← hn]) _ s rfl)
          | some found =>
              obtain ⟨group, rest⟩ := found
              obtain ⟨m, hs, hm, hend⟩ := assignment_eq_some hassign
              obtain ⟨u, hu⟩ : ∃ u, group ++ m = c :: u := by
                cases hgm : group ++ m with
                | nil => exact absurd (List.append_eq_nil_iff.mp hgm).2 hm
                | cons d u =>
                    rw [← List.append_assoc, hgm, List.cons_append, List.cons.injEq] at hs
                    exact ⟨u, by rw [hs.1]⟩
              have hrest : s = u ++ rest := by
                rw [← List.append_assoc, hu, List.cons_append, List.cons.injEq] at hs
                exact hs.2
              subst hrest
              have hskip : (u ++ rest).length - rest.length = u.length := by simp
              have hshort : rest.length < n := by
                rw [← hn, List.length_cons, List.length_append]
                omega
              have hafter : after (some c) u = after (after last group) m := by
                rw [← after_append, hu, after_cons]
              dsimp only
              rw [hs, hskip, redactAssignments_skip, hafter]
              exact keep_append (.replace hm hend (ih rest.length hshort _ rest rfl))

/-! ## Where the patterns begin and end -/

theorem alnumOr_of_isSpace {extra : List Char} {c : Char} (hextra : ∀ d ∈ extra, d ≠ '=' ∧ ¬isSpace d)
    (hc : c = '=' ∨ isSpace c) : alnumOr extra c = false := by
  rw [alnumOr, Bool.or_eq_false_iff]
  constructor
  · rw [← Bool.not_eq_true, PyText.isAlphanum_iff]
    rcases hc with rfl | hc
    · decide
    · simp only [isSpace, Bool.or_eq_true, Bool.and_eq_true, decide_eq_true_eq, beq_iff_eq] at hc
      omega
  · rw [← Bool.not_eq_true, List.contains_iff_mem]
    intro hmem
    obtain ⟨hne, hspace⟩ := hextra c hmem
    exact hc.elim hne hspace

theorem isLineTerminator_iff {c : Char} :
    isLineTerminator c ↔ c = '\n' ∨ c = '\r' ∨ c = '\u2028' ∨ c = '\u2029' := by
  simp only [isLineTerminator, Bool.or_eq_true, beq_iff_eq, or_assoc]

/-- A body that begins with a character that ends no line and ends with neither whitespace nor an
equals sign. -/
structure Inline (body : Pattern) : Prop where
  first : ∃ p n x r, body = Item.rep p n x :: r ∧ 0 < n ∧ ∀ c, isLineTerminator c → p c = false
  last : ∃ r p n x, body = r ++ [Item.rep p n x] ∧ 0 < n ∧ ∀ c, c = '=' ∨ isSpace c → p c = false

theorem inline_of_mem {r : Pattern} (hr : r ∈ common ++ [pattern "bearer_token"]) :
    Inline r.tail.dropLast := by
  have hterm : ∀ p : Char → Bool, p '\n' = false → p '\r' = false → p '\u2028' = false →
      p '\u2029' = false → ∀ c, isLineTerminator c → p c = false := by
    intro p h1 h2 h3 h4 c hc
    rcases isLineTerminator_iff.mp hc with rfl | rfl | rfl | rfl
    · exact h1
    · exact h2
    · exact h3
    · exact h4
  simp only [common, secretPatterns, List.tail_cons, List.take_succ_cons, List.take_zero,
    List.cons_append, List.nil_append, List.mem_cons, List.not_mem_nil, or_false] at hr
  rcases hr with rfl | rfl | rfl | rfl | rfl
  · exact ⟨⟨_, _, _, _, rfl, by decide, hterm _ rfl rfl rfl rfl⟩,
      ⟨[Item.rep Char.isDigit 8 (some 10)] ++ lit ":", _, _, _, rfl, by decide, fun _ hc =>
        alnumOr_of_isSpace (by simp [isSpace]) hc⟩⟩
  · exact ⟨⟨_, _, _, _, rfl, by decide, hterm _ rfl rfl rfl rfl⟩,
      ⟨lit "ghp_", _, _, _, rfl, by decide, fun _ hc => alnumOr_of_isSpace (by simp [isSpace]) hc⟩⟩
  · exact ⟨⟨_, _, _, _, rfl, by decide, hterm _ rfl rfl rfl rfl⟩,
      ⟨lit "sk-", _, _, _, rfl, by decide, fun _ hc => alnumOr_of_isSpace (by simp [isSpace]) hc⟩⟩
  · exact ⟨⟨_, _, _, _, rfl, by decide, hterm _ rfl rfl rfl rfl⟩,
      ⟨lit "sk-ant-", _, _, _, rfl, by decide, fun _ hc => alnumOr_of_isSpace (by simp [isSpace]) hc⟩⟩
  · exact ⟨⟨_, _, _, _, rfl, by decide, hterm _ rfl rfl rfl rfl⟩,
      ⟨"Bearer".toList.map anyCase ++ [Item.rep PyText.isSpace 1 none], _, _, _, rfl, by decide,
        fun _ hc => alnumOr_of_isSpace (by simp [isSpace, Redaction.foldedLetters]) hc⟩⟩

/-- No match of such a pattern ends or begins at a marker that an assignment got. -/
theorem apart_lineEnd {body : Pattern} (hbody : Inline body) {last : Option Char} {m rest : List Char}
    (h : LineEnd last m rest) : Apart (some isWord) body last m rest where
  left u hu hmatch hlast := by
    obtain ⟨r, p, n, x, rfl, hn, hp⟩ := hbody.last
    obtain ⟨c, hc, hpc⟩ := last_of_matches hn hmatch
    obtain ⟨d, hd, hend⟩ := h.before
    obtain rfl : c = d := Option.some.inj (hc.symm.trans (hlast.trans hd))
    rw [hp c hend] at hpc
    cases hpc
  right u hu hmatch hhead := by
    obtain ⟨p, n, x, r, rfl, hn, hp⟩ := hbody.first
    obtain ⟨c, hc, hpc⟩ := head_of_matches hn hmatch
    rw [hp c (h.next c (hhead.symm.trans hc))] at hpc
    cases hpc

theorem search_redactAssignments {q : Pattern}
    (hq : q = pattern "google_api_key" ∨ q ∈ common ++ [pattern "bearer_token"]) {text : String}
    (h : search q text = false) :
    search q (.ofList (redactAssignments none 0 text.toList)) = false := by
  have hrewritten := rewritten_redactAssignments none text.toList
  rw [search_eq_false] at h ⊢
  rintro ⟨a, u, b, hs, hu⟩
  rw [String.toList_ofList] at hs
  rcases hq with rfl | hq
  · obtain ⟨a', b', hold, hmatches, -⟩ := enclosed_google.occurrence hrewritten
      (fun body last m rest _ _ _ => apart_none body last m rest) hs hu
    exact h ⟨a', u, b', hold, hmatches⟩
  · have hmem : q ∈ common ++ [pattern "bearer_token", emailPattern] := by
      rw [List.mem_append, List.mem_singleton] at hq
      simpa using hq.imp_right Or.inl
    obtain ⟨a', b', hold, hmatches, -⟩ := (enclosed_worded hmem).occurrence hrewritten
      (fun body last m rest hframed _ hend => by
        have hinline := inline_of_mem hq
        rw [hframed, framed, List.tail_cons, List.dropLast_concat] at hinline
        exact apart_lineEnd hinline hend) hs hu
    exact h ⟨a', u, b', hold, hmatches⟩

/-! ## Where the two redactors differ -/

/-- The separators that Python's `\s` matches and JavaScript's does not. -/
def Separator (c : Char) : Prop := 0x1C ≤ c.toNat ∧ c.toNat ≤ 0x1F

/-- No bearer token stands behind one of these separators. -/
def Separated [Redaction.UnicodeTables] (s : List Char) : Prop :=
  ∀ a u b, s = a ++ (u ++ b) → Matches (pattern "bearer_token") (after none a) u b →
    ∀ c ∈ u, ¬Separator c

/-- The matches of the two patterns in which the redactors differ are matches for both. -/
structure Alike [Redaction.UnicodeTables] (s : List Char) : Prop where
  google : Covered googlePattern (pattern "google_api_key") s
  bearer : Separated s

theorem isSpace_eq {c : Char} (hascii : Ascii c) (hc : ¬Separator c) : PyText.isSpace c = isSpace c := by
  simp only [Ascii, Separator] at hascii hc
  rw [Bool.eq_iff_iff]
  simp only [PyText.isSpace, isSpace, Bool.or_eq_true, Bool.and_eq_true, decide_eq_true_eq, beq_iff_eq]
  omega

theorem alnumOr_folded {c : Char} (hascii : Ascii c) :
    alnumOr (['.', '_', '-'] ++ Redaction.foldedLetters) c = alnumOr ['.', '_', '-'] c := by
  have hfolded : Redaction.foldedLetters.contains c = false := by
    rw [← Bool.not_eq_true, List.contains_iff_mem]
    intro hmem
    have hlarge : ∀ d ∈ Redaction.foldedLetters, 0x80 ≤ d.toNat := by simp [Redaction.foldedLetters]
    exact absurd hascii (Nat.not_lt.mpr (hlarge c hmem))
  rw [alnumOr, alnumOr, List.contains_append, hfolded, Bool.or_false]

/-- Apart from these separators the two patterns of a bearer token are the same on ASCII. -/
theorem agree_bearer :
    Agree (fun c => Ascii c ∧ ¬Separator c) Ascii (pattern "bearer_token") bearerPattern := by
  have hword : ∀ c, Ascii c → Redaction.isWord c = isWord c := fun c _ => by rw [isWord_plain]
  exact .boundary hword ((Agree.refl ("Bearer".toList.map anyCase)).append
    (.rep (fun _ hc => isSpace_eq hc.1 hc.2)
      (.rep (fun _ hc => alnumOr_folded hc.1) (.boundary hword .nil))))

/-! ## The passes over an ASCII text -/

theorem ascii_of_rewritten {stays : Option Char → List Char → Prop}
    {piece : Option Char → List Char → List Char → Prop} {s s' : List Char}
    (h : Rewritten stays piece redactedMarker.toList none s s') (hs : ∀ c ∈ s, Ascii c) :
    ∀ c ∈ s', Ascii c := by
  have hmarker : ∀ c ∈ redactedMarker.toList, c.toNat < 0x80 := ascii_of_all (by decide)
  intro c hc
  exact (h.mem hc).elim (hs c) (hmarker c)

theorem ascii_sub {r : Pattern} (hr : 0 < minLength r) {text : String} (h : ∀ c ∈ text.toList, Ascii c) :
    ∀ c ∈ (sub r redactedMarker text).toList, Ascii c := by
  rw [sub, String.toList_ofList]
  exact ascii_of_rewritten (substituted_subFrom hr _ _ _) h

theorem separated_sub {r : Pattern} (hr : Sided (some isWord) r ∧ 0 < minLength r) {text : String}
    (h : Separated text.toList) : Separated (sub r redactedMarker text).toList := by
  intro a u b hs hu
  obtain ⟨a', b', hold, hmatches, -⟩ :=
    (enclosed_worded (r := pattern "bearer_token") (by simp)).occurrence_sub hr.1 hr.2 hs hu
  exact h a' u b' hold hmatches

theorem search_bearer {text : String} (hascii : ∀ c ∈ text.toList, Ascii c)
    (h : Separated text.toList) :
    search (pattern "bearer_token") (sub bearerPattern redactedMarker text) = false := by
  have henclosed := enclosed_worded (r := pattern "bearer_token") (by simp)
  have hpass := sided_of_mem (r := bearerPattern) (by rw [secretPatterns_eq]; simp)
  rw [search_eq_false]
  rintro ⟨a, u, b, hs, hu⟩
  have hne := henclosed.blocks.ne_nil_of_matches hu
  obtain ⟨a', b', hold, hmatches, -, hstays⟩ := henclosed.occurrence_sub hpass.1 hpass.2 hs hu
  have hseparated := h a' u b' hold hmatches
  rw [hold] at hascii
  simp only [List.forall_mem_append] at hascii
  obtain ⟨ha, hu', hb⟩ := hascii
  refine hstays [] u rfl hne u b' rfl (hmatches.congr agree_bearer ?_ ?_ ?_)
  · intro c hc
    rcases mem_after hc with hc | hc
    · cases hc
    · exact ha c hc
  · exact fun c hc => ⟨⟨hu' c hc, hseparated c hc⟩, hu' c hc⟩
  · exact fun c hc => hb c (List.mem_of_mem_head? hc)

/-- The patterns of `redaction.py`. -/
theorem containsSecret_eq_false_iff {text : String} : Redaction.containsSecret text = false ↔
    search (pattern "google_api_key") text = false ∧
      ∀ q ∈ common ++ [pattern "bearer_token"], search q text = false := by
  rw [Redaction.containsSecret_eq_false, ← List.forall_mem_cons (p := fun q => search q text = false),
    ← map_secretPatterns, List.forall_mem_map]

theorem redactLogText_eq (text : String) : redactLogText text =
    .ofList (redactAssignments none 0 (sub emailPattern redactedMarker (sub bearerPattern redactedMarker
      (common.foldl (fun s r => sub r redactedMarker s)
        (sub googlePattern redactedMarker text)))).toList) := by
  rw [redactLogText, secretPatterns_eq, List.foldl_cons, List.foldl_append]
  rfl

theorem mem_passes {r : Pattern} (hr : r = googlePattern ∨ r ∈ common ∨ r = bearerPattern ∨
    r = emailPattern) : r ∈ secretPatterns ++ [emailPattern] := by
  rw [secretPatterns_eq]
  simpa using hr

theorem google_covered {text : String} :
    search (pattern "google_api_key") (sub googlePattern redactedMarker text) = false ↔
      Covered googlePattern (pattern "google_api_key") text.toList := by
  have habsorbs : Absorbs (framed (some isWord) (lit "AIza" ++ [Item.rep (alnumOr ['_', '-']) 20 none])) :=
    absorbs_run (List.all_eq_true.mp (by decide))
  exact search_sub_eq_false_iff enclosed_google habsorbs (sided_of_mem (mem_passes (Or.inl rfl))).2

/-- What one pass keeps. -/
theorem search_common (text : String) :
    ∀ q ∈ common, search q (common.foldl (fun s r => sub r redactedMarker s) text) = false := by
  have henclosed : ∀ q ∈ common, Enclosed redactedMarker (some isWord) q := fun q hq =>
    enclosed_worded (List.mem_append_left _ hq)
  refine search_foldl_sub (fun r hr => (henclosed r hr).search_sub_self) ?_ text
  refine List.pairwise_of_forall_mem_list fun q hq r hr text => ?_
  exact (henclosed q hq).search_sub (henclosed r hr).sided (henclosed r hr).blocks.pos

/-- When every match of a Google key is covered and no bearer token stands behind a separator that
JavaScript lacks, no secret of `redaction.py` is left. -/
theorem containsSecret_redactLogText {text : String} (hascii : ∀ c ∈ text.toList, Ascii c)
    (h : Alike text.toList) : Redaction.containsSecret (redactLogText text) = false := by
  have hgooglePass := sided_of_mem (r := googlePattern) (mem_passes (by simp))
  have hbearerPass := sided_of_mem (r := bearerPattern) (mem_passes (by simp))
  have hemailPass := sided_of_mem (r := emailPattern) (mem_passes (by simp))
  have hcommonPass : ∀ r ∈ common, Sided (some isWord) r ∧ 0 < minLength r := fun r hr =>
    sided_of_mem (mem_passes (by simp [hr]))
  -- up to the bearer tokens
  obtain ⟨hascii₅, hseparated₅, hgoogle₅⟩ : (∀ c ∈ (common.foldl (fun s r => sub r redactedMarker s)
      (sub googlePattern redactedMarker text)).toList, Ascii c) ∧
      Separated (common.foldl (fun s r => sub r redactedMarker s)
        (sub googlePattern redactedMarker text)).toList ∧
      search (pattern "google_api_key") (common.foldl (fun s r => sub r redactedMarker s)
        (sub googlePattern redactedMarker text)) = false := by
    refine foldl_sub_induction (P := fun t => (∀ c ∈ t.toList, Ascii c) ∧ Separated t.toList ∧
      search (pattern "google_api_key") t = false) (fun r hr t ht => ?_) ?_
    · obtain ⟨hascii, hseparated, hgoogle⟩ := ht
      exact ⟨ascii_sub (hcommonPass r hr).2 hascii, separated_sub (hcommonPass r hr) hseparated,
        enclosed_google.search_sub (sided_none r) (hcommonPass r hr).2 hgoogle⟩
    · exact ⟨ascii_sub hgooglePass.2 hascii, separated_sub hgooglePass h.bearer,
        google_covered.mpr h.google⟩
  -- the later passes keep what is reached
  have hlater : ∀ r, Sided (some isWord) r ∧ 0 < minLength r → ∀ t,
      ∀ q ∈ common ++ [pattern "bearer_token"], search q t = false →
        search q (sub r redactedMarker t) = false := by
    intro r hr t q hq hfalse
    have hmem : q ∈ common ++ [pattern "bearer_token", emailPattern] := by
      rw [List.mem_append, List.mem_singleton] at hq
      simpa using hq.imp_right Or.inl
    exact (enclosed_worded hmem).search_sub hr.1 hr.2 hfalse
  rw [redactLogText_eq, containsSecret_eq_false_iff]
  constructor
  · apply search_redactAssignments (Or.inl rfl)
    exact enclosed_google.search_sub (sided_none _) hemailPass.2
      (enclosed_google.search_sub (sided_none _) hbearerPass.2 hgoogle₅)
  · intro q hq
    apply search_redactAssignments (Or.inr hq)
    apply hlater _ hemailPass _ q hq
    rcases List.mem_append.mp hq with hcommon | hbearer
    · exact hlater _ hbearerPass _ q hq (search_common _ q hcommon)
    · rw [List.mem_singleton.mp hbearer]
      exact search_bearer hascii₅ hseparated₅

/-! ## When nothing else is redacted -/

theorem assignment_of_not_mem {s : List Char} (h : '=' ∉ s) (last : Option Char) :
    assignment last s = none := by
  rw [assignment]
  split
  · rw [List.findSome?_eq_none_iff]
    intro key _
    rw [Option.map_eq_none_iff]
    have hitem : Item.rep (· == '=') 1 (some 1) ∈
        assignmentTo key ++ [Item.rep (fun c => !isLineTerminator c) 1 (some 1)] := by
      simp [assignmentTo, lit]
    refine matchAt_none hitem Nat.one_pos (fun c hc => ?_) last
    rw [beq_eq_false_iff_ne]
    rintro rfl
    exact h hc
  · rfl

theorem redactAssignments_of_not_mem {s : List Char} (h : '=' ∉ s) (last : Option Char) :
    redactAssignments last 0 s = s := by
  induction s generalizing last with
  | nil => rfl
  | cons c s ih =>
      rw [redactAssignments, assignment_of_not_mem h]
      dsimp only
      rw [ih fun hmem => h (List.mem_cons_of_mem c hmem)]

theorem enclosed_bearerPattern : Enclosed redactedMarker (some isWord) bearerPattern := by
  constructor
  · refine ⟨"Bearer".toList.map anyCase ++ [Item.rep isSpace 1 none,
      Item.rep (alnumOr ['.', '_', '-']) 20 none], rfl, ?_⟩
    simp [Plain, anyCase]
  · apply Redaction.blocks_of_long
    · simp [bearerPattern, secretPatterns, Excludes, anyCase, wordBoundary, alnumOr, isSpace]
    · simp [bearerPattern, secretPatterns, Excludes, anyCase, wordBoundary, alnumOr, isSpace]
    · simp [bearerPattern, secretPatterns, minLength, anyCase, wordBoundary]

/-- A text that only the first pass changes. -/
theorem redactLogText_of_unmatched {text : String}
    (h : ∀ r ∈ common ++ [bearerPattern, emailPattern], search r text = false)
    (hassign : '=' ∉ text.toList) : redactLogText text = sub googlePattern redactedMarker text := by
  have hpass := sided_of_mem (r := googlePattern) (mem_passes (by simp))
  have hkept : ∀ r ∈ common ++ [bearerPattern, emailPattern],
      search r (sub googlePattern redactedMarker text) = false := by
    intro r hr
    have henclosed : Enclosed redactedMarker (some isWord) r := by
      simp only [List.mem_append, List.mem_cons, List.not_mem_nil, or_false] at hr
      rcases hr with hr | rfl | rfl
      · exact enclosed_worded (List.mem_append_left _ hr)
      · exact enclosed_bearerPattern
      · exact enclosed_worded (by simp)
    exact henclosed.search_sub hpass.1 hpass.2 (h r hr)
  have hassign' : '=' ∉ (sub googlePattern redactedMarker text).toList := by
    rw [sub, String.toList_ofList]
    intro hmem
    rcases (substituted_subFrom hpass.2 _ _ _).mem hmem with hmem | hmem
    · exact hassign hmem
    · rw [Redaction.toList_redactedMarker] at hmem
      exact absurd hmem (by decide)
  rw [redactLogText_eq, foldl_sub_of_search_false fun r hr => hkept r (List.mem_append_left _ hr),
    sub_of_search_false (hkept bearerPattern (by simp)), sub_of_search_false (hkept emailPattern (by simp)),
    redactAssignments_of_not_mem hassign', String.ofList_toList]

theorem alike_of_clean {text : String} (h : Redaction.containsSecret text = false) :
    Alike text.toList := by
  rw [containsSecret_eq_false_iff] at h
  obtain ⟨hgoogle, hothers⟩ := h
  constructor
  · intro a u b hs hu
    exact absurd ⟨a, u, b, hs, hu⟩ (search_eq_false.mp hgoogle)
  · intro a u b hs hu
    exact absurd ⟨a, u, b, hs, hu⟩ (search_eq_false.mp (hothers (pattern "bearer_token") (by simp)))

theorem ascii_redactLogText {text : String} (hascii : ∀ c ∈ text.toList, Ascii c) :
    ∀ c ∈ (redactLogText text).toList, Ascii c := by
  have hpass : ∀ r ∈ secretPatterns ++ [emailPattern], ∀ t : String, (∀ c ∈ t.toList, Ascii c) →
      ∀ c ∈ (sub r redactedMarker t).toList, Ascii c := fun r hr _ ht => ascii_sub (sided_of_mem hr).2 ht
  rw [redactLogText, String.toList_ofList]
  apply ascii_of_rewritten (rewritten_redactAssignments none _)
  apply hpass emailPattern (by simp)
  exact foldl_sub_induction (P := fun t => ∀ c ∈ t.toList, Ascii c)
    (fun r hr => hpass r (List.mem_append_left _ hr)) hascii

/-! ## The two redactors -/

section

variable (tables : Redaction.UnicodeTables)

theorem agree_pattern_bearer :
    Agree Ascii Ascii (@pattern tables "bearer_token") (@pattern plainTables "bearer_token") := by
  have hword : ∀ c, Ascii c → @Redaction.isWord tables c = @Redaction.isWord plainTables c :=
    fun _ hc => isWord_tables tables hc
  exact .boundary hword ((Agree.refl ("Bearer".toList.map anyCase ++ [Item.rep PyText.isSpace 1 none,
    Item.rep (alnumOr (['.', '_', '-'] ++ Redaction.foldedLetters)) 20 none])).append
      (.boundary hword .nil))

theorem separated_tables {s : List Char} (hascii : ∀ c ∈ s, Ascii c) :
    @Separated tables s ↔ @Separated plainTables s := by
  have hone : ∀ t t' : Redaction.UnicodeTables,
      Agree Ascii Ascii (@pattern t "bearer_token") (@pattern t' "bearer_token") →
        @Separated t' s → @Separated t s := by
    intro t t' hagree h a u b hs hu
    rw [hs] at hascii
    simp only [List.forall_mem_append] at hascii
    obtain ⟨ha, hu', hb⟩ := hascii
    refine h a u b hs (hu.congr hagree ?_ ?_ ?_)
    · intro c hc
      rcases mem_after hc with hc | hc
      · cases hc
      · exact ha c hc
    · exact fun c hc => ⟨hu' c hc, hu' c hc⟩
    · exact fun c hc => hb c (List.mem_of_mem_head? hc)
  exact ⟨hone _ _ (agree_pattern_bearer tables).symm, hone _ _ (agree_pattern_bearer tables)⟩

theorem alike_tables {s : List Char} (hascii : ∀ c ∈ s, Ascii c) :
    @Alike tables s ↔ @Alike plainTables s :=
  ⟨fun h => @Alike.mk plainTables s (@Alike.google tables s h)
      ((separated_tables tables hascii).mp (@Alike.bearer tables s h)),
    fun h => @Alike.mk tables s (@Alike.google plainTables s h)
      ((separated_tables tables hascii).mpr (@Alike.bearer plainTables s h))⟩

/-- `redactLogText` leaves no secret of `redaction.py` in an ASCII text in which the two redactors
match alike. Where nothing else is redacted, this is also needed. -/
theorem redactLogText_agrees {text : String} (hascii : ∀ c ∈ text.toList, Ascii c) :
    (@Alike tables text.toList → @Redaction.containsSecret tables (redactLogText text) = false) ∧
      ('=' ∉ text.toList → (∀ r ∈ secretPatterns.tail ++ [emailPattern], search r text = false) →
        @Redaction.containsSecret tables (redactLogText text) = false →
          Covered googlePattern (@pattern tables "google_api_key") text.toList) ∧
      ('=' ∉ text.toList → (∀ r ∈ secretPatterns ++ [emailPattern], search r text = false) →
        @Redaction.containsSecret tables (redactLogText text) = false → @Alike tables text.toList) := by
  rw [containsSecret_tables tables (ascii_redactLogText hascii), alike_tables tables hascii]
  refine ⟨containsSecret_redactLogText hascii, fun hassign hothers hclean => ?_,
    fun hassign hall hclean => ?_⟩
  · rw [redactLogText_of_unmatched hothers hassign, containsSecret_eq_false_iff] at hclean
    exact google_covered.mp hclean.1
  · rw [secretPatterns_eq, List.cons_append, List.forall_mem_cons] at hall
    obtain ⟨hgoogle, hothers⟩ := hall
    rw [List.append_assoc] at hothers
    rw [redactLogText_of_unmatched hothers hassign, sub_of_search_false hgoogle] at hclean
    exact alike_of_clean hclean

end

/-- A key between blanks. -/
def sampleText : String := "key AIzaAAAAAAAAAAAAAAAAAAAA set"

theorem alike_sampleText : Alike sampleText.toList := by
  constructor
  · exact google_covered.mp (by decide +kernel)
  · intro a u b hs hu
    have hnone : search (pattern "bearer_token") sampleText = false := by decide +kernel
    exact absurd ⟨a, u, b, hs, hu⟩ (search_eq_false.mp hnone)

theorem redactLogText_agrees_sample :
    Redaction.containsSecret (redactLogText sampleText) = false ∧
      Covered googlePattern (pattern "google_api_key") sampleText.toList ∧ Alike "ok".toList := by
  have hascii : ∀ c ∈ sampleText.toList, c.toNat < 0x80 := ascii_of_all (by decide)
  have hascii' : ∀ c ∈ "ok".toList, c.toNat < 0x80 := ascii_of_all (by decide)
  obtain ⟨hclean, hcovered, -⟩ := redactLogText_agrees plainTables hascii
  obtain ⟨-, -, halike⟩ := redactLogText_agrees plainTables hascii'
  refine ⟨hclean alike_sampleText, hcovered ?_ ?_ (hclean alike_sampleText), halike ?_ ?_ ?_⟩
  all_goals decide +kernel

/-- A key behind a letter: only the pattern without a boundary matches it. -/
def sampleKey : String := "xAIzaAAAAAAAAAAAAAAAAAAAA"

theorem redactLogText_not_clean : (∀ c ∈ sampleKey.toList, c.toNat < 0x80) ∧
    Redaction.containsSecret (Redaction.redactText sampleKey) = false ∧
    Redaction.containsSecret (redactLogText sampleKey) = true := by
  refine ⟨ascii_of_all (by decide), ?_, ?_⟩
  all_goals decide +kernel

end Perpetua.PathBoundary

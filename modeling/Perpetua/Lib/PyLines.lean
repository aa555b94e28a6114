import Perpetua.Lib.PyText

/-!
# Lines of a text

`str.splitlines`, and the newlines that a file opened as a text is read with.
-/

namespace PyText

/-- The line boundaries of `str.splitlines`. -/
def isLineBoundary (c : Char) : Bool :=
  let n := c.toNat
  (0x0A ≤ n && n ≤ 0x0D) || (0x1C ≤ n && n ≤ 0x1E) || n == 0x85 || n == 0x2028 || n == 0x2029

/-- Without the carriage returns that a line feed follows. -/
def joinCrlf : List Char → List Char
  | [] => []
  | c :: cs => if c = '\r' ∧ cs.head? = some '\n' then joinCrlf cs else c :: joinCrlf cs

/-- `str.splitlines`: a boundary at the end begins no line. -/
def splitlines (cs : List Char) : List (List Char) :=
  let lines := (joinCrlf cs).splitOnP isLineBoundary
  if lines.getLast? = some [] then lines.dropLast else lines

/-- What is read in text mode: every newline is a line feed. -/
def universalNewlines (cs : List Char) : List Char :=
  (joinCrlf cs).map fun c => if c = '\r' then '\n' else c

theorem joinCrlf_append {line rest : List Char} (h : ∀ c ∈ line, isLineBoundary c = false) :
    joinCrlf (line ++ rest) = line ++ joinCrlf rest := by
  induction line with
  | nil => rfl
  | cons c line ih =>
      rw [List.forall_mem_cons] at h
      have hc : c ≠ '\r' := by
        rintro rfl
        exact absurd h.1 (by decide)
      rw [List.cons_append, joinCrlf, if_neg fun hcr => hc hcr.1, ih h.2, List.cons_append]

theorem splitlines_line {line : List Char} (h : ∀ c ∈ line, isLineBoundary c = false)
    (rest : List Char) : splitlines (line ++ '\n' :: rest) = line :: splitlines rest := by
  have hjoin : joinCrlf ('\n' :: rest) = '\n' :: joinCrlf rest := by
    rw [joinCrlf, if_neg fun hcr => absurd hcr.1 (by decide)]
  have hsplit := List.splitOnP_append_cons_of_forall_mem h '\n' (by decide) (joinCrlf rest)
  have hne := List.splitOnP_ne_nil isLineBoundary (joinCrlf rest)
  rw [splitlines, splitlines, joinCrlf_append h, hjoin, hsplit]
  simp only [List.getLast?_cons_of_ne_nil hne, List.dropLast_cons_of_ne_nil hne]
  split <;> rfl

theorem splitlines_last {line : List Char} (h : ∀ c ∈ line, isLineBoundary c = false) :
    splitlines line = if line = [] then [] else [line] := by
  have hjoin : joinCrlf (line ++ []) = line ++ joinCrlf [] := joinCrlf_append h
  rw [List.append_nil, joinCrlf, List.append_nil] at hjoin
  rw [splitlines, hjoin, List.splitOnP_eq_singleton h]
  simp

theorem splitlines_nil : splitlines [] = [] := by decide

/-- Lines without boundaries inside, each with a line feed behind it. -/
theorem splitlines_lines {lines : List (List Char)}
    (h : ∀ line ∈ lines, ∀ c ∈ line, isLineBoundary c = false) :
    splitlines (lines.flatMap (· ++ ['\n'])) = lines := by
  induction lines with
  | nil => exact splitlines_nil
  | cons line lines ih =>
      rw [List.forall_mem_cons] at h
      rw [List.flatMap_cons, List.append_assoc, List.singleton_append, splitlines_line h.1, ih h.2]

/-- No line holds a boundary. -/
theorem isLineBoundary_of_mem_splitlines {cs line : List Char} (h : line ∈ splitlines cs) :
    ∀ c ∈ line, isLineBoundary c = false := by
  have hsplit : ∀ cs : List Char, ∀ line ∈ cs.splitOnP isLineBoundary,
      ∀ c ∈ line, isLineBoundary c = false := by
    intro cs
    induction cs with
    | nil => simp
    | cons d cs ih =>
        intro line hline
        rw [List.splitOnP_cons_eq_if_modifyHead] at hline
        split at hline
        · rcases List.mem_cons.mp hline with rfl | hline
          · simp
          · exact ih line hline
        next hd =>
          cases hcs : cs.splitOnP isLineBoundary with
          | nil => exact absurd hcs (List.splitOnP_ne_nil _ _)
          | cons first others =>
              rw [hcs, List.modifyHead_cons, List.mem_cons] at hline
              rw [hcs] at ih
              rcases hline with rfl | hline
              · rw [List.forall_mem_cons]
                exact ⟨by simpa using hd, ih first List.mem_cons_self⟩
              · exact ih line (List.mem_cons_of_mem _ hline)
  simp only [splitlines] at h
  split at h
  · exact hsplit _ line (List.dropLast_subset _ h)
  · exact hsplit _ line h

theorem joinCrlf_eq_self {cs : List Char} (h : '\r' ∉ cs) : joinCrlf cs = cs := by
  induction cs with
  | nil => rfl
  | cons c cs ih =>
      rw [List.mem_cons, not_or] at h
      rw [joinCrlf, if_neg fun hcr => h.1 hcr.1.symm, ih h.2]

/-- A text without carriage returns is read as it stands. -/
theorem universalNewlines_eq_self {cs : List Char} (h : '\r' ∉ cs) : universalNewlines cs = cs := by
  rw [universalNewlines, joinCrlf_eq_self h]
  refine (List.map_congr_left ?_).trans (List.map_id cs)
  intro c hc
  rw [if_neg, id]
  rintro rfl
  exact h hc

theorem count_joinCrlf (cs : List Char) : (joinCrlf cs).count '\n' = cs.count '\n' := by
  induction cs with
  | nil => rfl
  | cons c cs ih =>
      rw [joinCrlf]
      split
      next hcr => rw [hcr.1, List.count_cons_of_ne (by decide), ih]
      · rw [List.count_cons, List.count_cons, ih]

theorem count_le_universalNewlines (cs : List Char) :
    cs.count '\n' ≤ (universalNewlines cs).count '\n' := by
  rw [← count_joinCrlf, universalNewlines]
  exact List.count_le_count_map (f := fun c => if c = '\r' then '\n' else c) (x := '\n')

/-- There are at least as many lines as line feeds. -/
theorem count_le_length_splitlines (cs : List Char) : cs.count '\n' ≤ (splitlines cs).length := by
  have hsplit : ∀ cs : List Char, cs.count '\n' < (cs.splitOnP isLineBoundary).length := by
    intro cs
    induction cs with
    | nil => simp
    | cons c cs ih =>
        rw [List.splitOnP_cons_eq_if_modifyHead, List.count_cons]
        by_cases hc : isLineBoundary c = true
        · rw [if_pos hc, List.length_cons]
          split <;> omega
        · rw [if_neg hc, List.length_modifyHead, if_neg]
          · exact ih
          · intro hnl
            rw [beq_iff_eq] at hnl
            exact hc (hnl ▸ by decide)
  have h := hsplit (joinCrlf cs)
  rw [count_joinCrlf] at h
  simp only [splitlines]
  split
  · rw [List.length_dropLast]
    omega
  · exact h.le

/-- What is no space is not stripped. -/
theorem mem_strip {s : String} {c : Char} (h : c ∈ s.toList) (hc : isSpace c = false) :
    c ∈ (strip s).toList := by
  have hdrop : ∀ cs : List Char, c ∈ cs → c ∈ cs.dropWhile isSpace := by
    intro cs hmem
    rw [← List.takeWhile_append_dropWhile (p := isSpace) (l := cs), List.mem_append] at hmem
    rcases hmem with hmem | hmem
    · rw [List.mem_takeWhile_imp hmem] at hc
      cases hc
    · exact hmem
  rw [strip, String.toList_ofList, List.mem_reverse]
  exact hdrop _ (List.mem_reverse.mpr (hdrop _ h))

example : splitlines "a\r\nb\n\nc\r".toList = ["a", "b", "", "c"].map String.toList := by decide

end PyText

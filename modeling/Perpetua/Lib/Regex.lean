import Mathlib.Data.List.Basic

/-!
# Regular expressions that are runs of character classes

The patterns of Python's `re` that repeat one class after the other, with word boundaries between
them. Repetition is greedy with backtracking, so a match is the one `re` reports. No pattern here
matches the empty text.
-/

namespace Regex

/-- The part of a pattern that is matched next. -/
inductive Item
  /-- `p{min,max}`; without `max`, `p{min,}`. -/
  | rep (p : Char → Bool) (min : ℕ) (max : Option ℕ)
  /-- `\b`, for the word characters given. -/
  | boundary (isWord : Char → Bool)

abbrev Pattern := List Item

/-- A fixed text. -/
def lit (s : String) : Pattern := s.toList.map fun c => .rep (· == c) 1 (some 1)

/-- One repetition, greedy, followed by `k`, which gets the last character and what is left. -/
def matchRep (p : Char → Bool) (k : Option Char → List Char → Option (List Char)) :
    ℕ → Option ℕ → Option Char → List Char → Option (List Char)
  | min, _, last, [] => if min = 0 then k last [] else none
  | min, max, last, c :: s =>
      let longer :=
        if p c ∧ max ≠ some 0 then matchRep p k (min - 1) (max.map (· - 1)) (some c) s else none
      match longer with
      | some rest => some rest
      | none => if min = 0 then k last (c :: s) else none

/-- What is left after the pattern has matched here; `last` is the character before. -/
def matchAt : Pattern → Option Char → List Char → Option (List Char)
  | [], _, s => some s
  | .rep p min max :: r, last, s => matchRep p (matchAt r) min max last s
  | .boundary isWord :: r, last, s =>
      if last.any isWord ≠ s.head?.any isWord then matchAt r last s else none

/-- `sub`, from a place where the next `skip` characters belong to the last match. -/
def subFrom (r : Pattern) (repl : List Char) : Option Char → ℕ → List Char → List Char
  | _, _, [] => []
  | _, skip + 1, c :: s => subFrom r repl (some c) skip s
  | last, 0, c :: s =>
      match matchAt r last (c :: s) with
      | some rest => repl ++ subFrom r repl (some c) (s.length - rest.length) s
      | none => c :: subFrom r repl (some c) 0 s

/-- `pattern.sub(repl, text)`. -/
def sub (r : Pattern) (repl text : String) : String :=
  .ofList (subFrom r repl.toList none 0 text.toList)

/-- `pattern.search(text) is not None`, from a place after `last`. -/
def searchFrom (r : Pattern) : Option Char → List Char → Bool
  | last, [] => (matchAt r last []).isSome
  | last, c :: s => (matchAt r last (c :: s)).isSome || searchFrom r (some c) s

def search (r : Pattern) (text : String) : Bool := searchFrom r none text.toList

example : sub [.boundary Char.isAlphanum, .rep Char.isDigit 2 (some 3)] "#" "1 22 a33 4444" =
    "1 # a33 #4" := by decide

/-! ## Texts without a match -/

variable {r : Pattern} {s : List Char}

/-- The least number of characters that a match takes. -/
def minLength : Pattern → ℕ
  | [] => 0
  | .rep _ min _ :: r => min + minLength r
  | .boundary _ :: r => minLength r

theorem matchRep_length {p : Char → Bool} {k : Option Char → List Char → Option (List Char)} {m : ℕ}
    (hk : ∀ last s rest, k last s = some rest → m + rest.length ≤ s.length) {min : ℕ}
    {max : Option ℕ} {last : Option Char} {rest : List Char}
    (h : matchRep p k min max last s = some rest) : min + m + rest.length ≤ s.length := by
  induction s generalizing min max last with
  | nil =>
      rw [matchRep] at h
      split at h
      · rename_i hmin
        have := hk _ _ _ h
        omega
      · cases h
  | cons c s ih =>
      rw [matchRep] at h
      split at h
      · rename_i hlonger
        cases h
        split at hlonger
        · have := ih hlonger
          simp only [List.length_cons]
          omega
        · cases hlonger
      · split at h
        · rename_i hmin
          have := hk _ _ _ h
          omega
        · cases h

theorem matchAt_length {last : Option Char} {rest : List Char} (h : matchAt r last s = some rest) :
    minLength r + rest.length ≤ s.length := by
  induction r generalizing last s rest with
  | nil => cases h; simp [minLength]
  | cons item r ih =>
      cases item with
      | rep p min max => exact matchRep_length (fun _ _ _ hk => ih hk) h
      | boundary isWord =>
          rw [matchAt] at h
          split at h
          · exact ih h
          · cases h

theorem matchRep_none {p : Char → Bool} {k : Option Char → List Char → Option (List Char)}
    (hk : ∀ last s', s' <:+ s → k last s' = none) (min : ℕ) (max : Option ℕ) (last : Option Char) :
    matchRep p k min max last s = none := by
  induction s generalizing min max last with
  | nil =>
      rw [matchRep]
      split
      · exact hk _ _ List.suffix_rfl
      · rfl
  | cons c s ih =>
      have hlonger := fun min max last =>
        ih (fun last s' hs => hk last s' (hs.trans (List.suffix_cons c s))) min max last
      rw [matchRep]
      simp only [hlonger, hk _ _ List.suffix_rfl, ite_self]

/-- A pattern that needs a character of `p` does not match without one. -/
theorem matchAt_none {p : Char → Bool} {min : ℕ} {max : Option ℕ} (hitem : .rep p min max ∈ r)
    (hmin : 0 < min) (hs : ∀ c ∈ s, p c = false) (last : Option Char) : matchAt r last s = none := by
  induction r generalizing last s with
  | nil => cases hitem
  | cons item r ih =>
      rcases List.mem_cons.mp hitem with rfl | hrest
      · rw [matchAt]
        cases s with
        | nil => rw [matchRep, if_neg (by omega)]
        | cons c s =>
            rw [matchRep, hs c List.mem_cons_self]
            simp [Nat.ne_of_gt hmin]
      · cases item with
        | rep q min' max' =>
            exact matchRep_none (fun last s' hs' => ih hrest (fun c hc => hs c (hs'.subset hc)) last)
              _ _ _
        | boundary isWord =>
            rw [matchAt, ih hrest hs]
            split <;> rfl

theorem subFrom_of_none {repl : List Char} (h : ∀ last s', s' <:+ s → matchAt r last s' = none)
    (last : Option Char) : subFrom r repl last 0 s = s := by
  induction s generalizing last with
  | nil => rfl
  | cons c s ih =>
      rw [subFrom, h _ _ List.suffix_rfl]
      dsimp only
      rw [ih fun last s' hs => h last s' (hs.trans (List.suffix_cons c s))]

/-- A text shorter than any match is left as it is. -/
theorem sub_of_short {repl text : String} (h : text.toList.length < minLength r) :
    sub r repl text = text := by
  rw [sub, subFrom_of_none, String.ofList_toList]
  intro last s' hs
  by_contra hm
  obtain ⟨rest, hm⟩ := Option.ne_none_iff_exists'.mp hm
  have := matchAt_length hm
  have := hs.length_le
  omega

/-- A text without a character that every match has is left as it is. -/
theorem sub_of_lacking {repl text : String} (p : Char → Bool) {min : ℕ} (max : Option ℕ)
    (hitem : .rep p min max ∈ r) (hmin : 0 < min) (hs : ∀ c ∈ text.toList, p c = false) :
    sub r repl text = text := by
  rw [sub, subFrom_of_none, String.ofList_toList]
  exact fun last s' hs' => matchAt_none hitem hmin (fun c hc => hs c (hs'.subset hc)) last

end Regex

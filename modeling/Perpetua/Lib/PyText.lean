import Mathlib.Data.List.TakeWhile

/-!
# Python string operations

The whitespace of `str.strip` and of the regular expression class `\s` is CPython's Unicode table.
-/

namespace PyText

/-- One instance for every test of a text against a list of texts. -/
instance memDecidable (t : List Char) (ts : List (List Char)) : Decidable (t ∈ ts) :=
  List.instDecidableMemOfLawfulBEq t ts

/-! ## Characters -/

theorem isAlpha_iff {c : Char} :
    c.isAlpha ↔ (65 ≤ c.toNat ∧ c.toNat ≤ 90) ∨ (97 ≤ c.toNat ∧ c.toNat ≤ 122) := by
  have hupper : c.isUpper ↔ 65 ≤ c.toNat ∧ c.toNat ≤ 90 := by
    change decide (c.val ≥ 65 ∧ c.val ≤ 90) = true ↔ _
    rw [decide_eq_true_eq, ge_iff_le, UInt32.le_iff_toNat_le, UInt32.le_iff_toNat_le]
    rfl
  have hlower : c.isLower ↔ 97 ≤ c.toNat ∧ c.toNat ≤ 122 := by
    change (decide (c.val ≥ 97) && decide (c.val ≤ 122)) = true ↔ _
    rw [Bool.and_eq_true, decide_eq_true_eq, decide_eq_true_eq, ge_iff_le,
      UInt32.le_iff_toNat_le, UInt32.le_iff_toNat_le]
    rfl
  change (c.isUpper || c.isLower) = true ↔ _
  rw [Bool.or_eq_true, hupper, hlower]

theorem isDigit_iff {c : Char} : c.isDigit ↔ 48 ≤ c.toNat ∧ c.toNat ≤ 57 := Char.isDigit_iff_toNat

theorem isAlphanum_iff {c : Char} : c.isAlphanum ↔ ((65 ≤ c.toNat ∧ c.toNat ≤ 90) ∨
    (97 ≤ c.toNat ∧ c.toNat ≤ 122)) ∨ (48 ≤ c.toNat ∧ c.toNat ≤ 57) := by
  change (c.isAlpha || c.isDigit) = true ↔ _
  rw [Bool.or_eq_true, isAlpha_iff, isDigit_iff]

/-! ## Strings -/

/-- `str.isspace` of one character. -/
def isSpace (c : Char) : Bool :=
  let n := c.toNat
  (0x09 ≤ n && n ≤ 0x0D) || (0x1C ≤ n && n ≤ 0x20) || n == 0x85 || n == 0xA0 || n == 0x1680 ||
    (0x2000 ≤ n && n ≤ 0x200A) || n == 0x2028 || n == 0x2029 || n == 0x202F || n == 0x205F ||
    n == 0x3000

theorem isSpace_of_isAlphanum {c : Char} (h : c.isAlphanum) : isSpace c = false := by
  rw [isAlphanum_iff] at h
  simp [isSpace]
  omega

/-- `str.strip` without an argument. -/
def strip (s : String) : String :=
  .ofList ((s.toList.dropWhile isSpace).reverse.dropWhile isSpace).reverse

/-- A text with no space at either end is left as it is. -/
theorem strip_ofList_of_ends {cs : List Char} (hhead : cs.head?.all fun c => !isSpace c)
    (hlast : cs.getLast?.all fun c => !isSpace c) : strip (.ofList cs) = .ofList cs := by
  have hdrop : ∀ ds : List Char, (ds.head?.all fun c => !isSpace c) → ds.dropWhile isSpace = ds := by
    rintro (_ | ⟨d, ds⟩) hd
    · rfl
    · exact List.dropWhile_cons_of_neg (by simpa using hd)
  rw [strip, String.toList_ofList, hdrop cs hhead, hdrop _ (by rwa [List.head?_reverse]),
    List.reverse_reverse]

theorem strip_of_forall {s : String} (h : ∀ c ∈ s.toList, isSpace c = false) : strip s = s := by
  have hends : ∀ c ∈ s.toList, (!isSpace c) = true := fun c hc => by rw [h c hc]; rfl
  calc strip s = strip (.ofList s.toList) := by rw [String.ofList_toList]
    _ = .ofList s.toList := strip_ofList_of_ends
        ((Option.all_eq_true _ _).mpr fun c hc => hends c (List.mem_of_mem_head? hc))
        ((Option.all_eq_true _ _).mpr fun c hc => hends c (List.mem_of_getLast? hc))
    _ = s := String.ofList_toList

/-- `str.split` at one character. -/
def split (sep : Char) (s : String) : List String := (s.toList.splitOn sep).map .ofList

/-- `not s.strip()`: the text is empty or whitespace only. -/
def blank (s : String) : Bool := strip s == ""

theorem blank_eq_false_iff {s : String} : blank s = false ↔ ∃ c ∈ s.toList, isSpace c = false := by
  have hdrop : (∀ c ∈ s.toList.dropWhile isSpace, isSpace c) ↔ ∀ c ∈ s.toList, isSpace c := by
    constructor
    · intro h c hc
      rw [← List.takeWhile_append_dropWhile (p := isSpace) (l := s.toList)] at hc
      rcases List.mem_append.mp hc with hc | hc
      · exact List.mem_takeWhile_imp hc
      · exact h c hc
    · exact fun h c hc => h c ((List.dropWhile_sublist _).mem hc)
  rw [blank, strip, beq_eq_false_iff_ne, ne_eq, String.ofList_eq_empty_iff, List.reverse_eq_nil_iff,
    List.dropWhile_eq_nil_iff]
  simp [hdrop]

example : (split ',' "a, b ,,").map strip = ["a", "b", "", ""] := by decide

end PyText

import Mathlib.Data.List.TakeWhile
import Perpetua.Lib.PyNumber

/-!
# Python bytes

The lines of a binary stream and the numerals of `int(b, 16)`.
-/

namespace PyBytes

abbrev Bytes := List UInt8

def lineFeed : UInt8 := 0x0A
def carriageReturn : UInt8 := 0x0D
def semicolon : UInt8 := 0x3B
def underscore : UInt8 := 0x5F

/-! ## Lines -/

/-- `readline`: a line with its line feed, and what follows it. -/
def readline : Bytes → Bytes × Bytes
  | [] => ([], [])
  | b :: bs => if b = lineFeed then ([b], bs) else (b :: (readline bs).1, (readline bs).2)

/-- A line ends at its line feed, or with the stream. -/
def EndsLine (line rest : Bytes) : Prop :=
  (∃ text, line = text ++ [lineFeed] ∧ lineFeed ∉ text) ∨ lineFeed ∉ line ∧ rest = []

theorem endsLine_cons {b : UInt8} {line rest : Bytes} (hb : b ≠ lineFeed) :
    EndsLine (b :: line) rest ↔ EndsLine line rest := by
  constructor
  · rintro (⟨_ | ⟨c, text⟩, hline, htext⟩ | ⟨hline, hrest⟩)
    · exact absurd (List.cons.inj hline).1 hb
    · exact .inl ⟨text, (List.cons.inj hline).2, fun h => htext (List.mem_cons_of_mem c h)⟩
    · exact .inr ⟨fun h => hline (List.mem_cons_of_mem b h), hrest⟩
  · rintro (⟨text, rfl, htext⟩ | ⟨hline, hrest⟩)
    · exact .inl ⟨b :: text, rfl, fun h => (List.mem_cons.mp h).elim (fun h => hb h.symm) htext⟩
    · exact .inr ⟨fun h => (List.mem_cons.mp h).elim (fun h => hb h.symm) hline, hrest⟩

theorem readline_split (s : Bytes) : (readline s).1 ++ (readline s).2 = s := by
  induction s with
  | nil => rfl
  | cons b bs ih =>
      rw [readline]
      split
      · rfl
      · rw [List.cons_append, ih]

theorem readline_of_endsLine {line rest : Bytes} (h : EndsLine line rest) :
    readline (line ++ rest) = (line, rest) := by
  induction line with
  | nil =>
      rcases h with ⟨text, hline, -⟩ | ⟨-, rfl⟩
      · exact absurd hline.symm (by simp)
      · rfl
  | cons b line ih =>
      rw [List.cons_append, readline]
      split
      next hb =>
        rcases h with ⟨_ | ⟨c, text⟩, hline, htext⟩ | ⟨hline, -⟩
        · rw [(List.cons.inj hline).2]
          rfl
        · exact absurd (List.mem_cons.mpr (.inl (hb ▸ (List.cons.inj hline).1))) htext
        · exact absurd (List.mem_cons.mpr (.inl hb.symm)) hline
      next hb => rw [ih ((endsLine_cons hb).mp h)]

/-- One stream has one line in front. -/
theorem EndsLine.unique {line line' rest rest' : Bytes} (h : EndsLine line rest)
    (h' : EndsLine line' rest') (heq : line ++ rest = line' ++ rest') : line = line' ∧ rest = rest' := by
  have hread := readline_of_endsLine h
  rw [heq, readline_of_endsLine h'] at hread
  exact ⟨(Prod.mk.inj hread).1.symm, (Prod.mk.inj hread).2.symm⟩

theorem readline_rest_length (s : Bytes) (h : (readline s).1 ≠ []) :
    (readline s).2.length < s.length := by
  have hsplit := congrArg List.length (readline_split s)
  have hpos := List.length_pos_of_ne_nil h
  rw [List.length_append] at hsplit
  omega

theorem readline_rest_le (s : Bytes) : (readline s).2.length ≤ s.length := by
  have hsplit := congrArg List.length (readline_split s)
  rw [List.length_append] at hsplit
  omega

/-! ## Stripping -/

/-- `bytes.isspace` of one byte. -/
def isSpace (b : UInt8) : Bool := b = 0x20 || (0x09 ≤ b && b ≤ 0x0D)

/-- `bytes.rstrip` without an argument. -/
def rstrip (bs : Bytes) : Bytes := (bs.reverse.dropWhile isSpace).reverse

/-- `bytes.strip` without an argument. -/
def strip (bs : Bytes) : Bytes := rstrip (bs.dropWhile isSpace)

theorem dropWhile_isSpace {bs : Bytes} (h : ∀ b ∈ bs, isSpace b = false) : bs.dropWhile isSpace = bs := by
  cases bs with
  | nil => rfl
  | cons b bs => exact List.dropWhile_cons_of_neg (by simpa using h b List.mem_cons_self)

/-- A part that is no space stays. -/
theorem rstrip_append {head tail : Bytes} (hhead : ∀ b ∈ head, isSpace b = false) :
    rstrip (head ++ tail) = head ++ rstrip tail := by
  rw [rstrip, rstrip, List.reverse_append, List.dropWhile_append]
  split
  next hall =>
    rw [dropWhile_isSpace fun b hb => hhead b (List.mem_reverse.mp hb), List.reverse_reverse]
    rw [List.isEmpty_iff.mp hall, List.reverse_nil, List.append_nil]
  next => rw [List.reverse_append, List.reverse_reverse]

theorem strip_of_forall {bs : Bytes} (h : ∀ b ∈ bs, isSpace b = false) : strip bs = bs := by
  have hstrip : rstrip (bs ++ []) = bs ++ rstrip [] := rstrip_append h
  rw [List.append_nil] at hstrip
  rw [strip, dropWhile_isSpace h, hstrip]
  exact List.append_nil bs

/-! ## Numerals in base 16 -/

/-- The value of a hexadecimal digit. -/
def hexDigit? (b : UInt8) : Option ℕ :=
  if 0x30 ≤ b && b ≤ 0x39 then some (b.toNat - 0x30)
  else if 0x61 ≤ b && b ≤ 0x66 then some (b.toNat - 0x61 + 10)
  else if 0x41 ≤ b && b ≤ 0x46 then some (b.toNat - 0x41 + 10)
  else none

/-- The digits after a prefix `0x`, which an underscore may follow. -/
def unprefixed : Bytes → Bytes
  | 0x30 :: 0x78 :: 0x5F :: bs | 0x30 :: 0x58 :: 0x5F :: bs => bs
  | 0x30 :: 0x78 :: bs | 0x30 :: 0x58 :: bs => bs
  | bs => bs

/-- The number without its sign; single underscores may stand between the digits. -/
def unsignedInt16 (bs : Bytes) : Option ℕ :=
  let groups := (unprefixed bs).splitOn underscore
  if [] ∈ groups then none
  else (groups.flatten.mapM hexDigit?).map fun ds => ds.foldl (fun n d => 16 * n + d) 0

/-- `int(b, 16)`. -/
def int16 (bs : Bytes) : Option ℤ :=
  match strip bs with
  | 0x2D :: bs => (unsignedInt16 bs).map fun n => -(n : ℤ)
  | 0x2B :: bs => (unsignedInt16 bs).map fun n => (n : ℤ)
  | bs => (unsignedInt16 bs).map fun n => (n : ℤ)

/-- One or more hexadecimal digits. -/
structure HexDigits (bs : Bytes) : Prop where
  nonempty : bs ≠ []
  digits : ∀ b ∈ bs, (hexDigit? b).isSome

/-- The number that hexadecimal digits stand for. -/
def hexValue (bs : Bytes) : ℕ := bs.foldl (fun n b => 16 * n + (hexDigit? b).getD 0) 0

theorem isSpace_iff (b : UInt8) :
    isSpace b = true ↔ b.toNat = 0x20 ∨ 0x09 ≤ b.toNat ∧ b.toNat ≤ 0x0D := by
  simp [isSpace, UInt8.le_iff_toNat_le, ← UInt8.toNat_inj]

theorem hexDigit?_isSome_iff (b : UInt8) :
    (hexDigit? b).isSome ↔ (0x30 ≤ b.toNat ∧ b.toNat ≤ 0x39) ∨ (0x61 ≤ b.toNat ∧ b.toNat ≤ 0x66) ∨
      (0x41 ≤ b.toNat ∧ b.toNat ≤ 0x46) := by
  simp only [hexDigit?, UInt8.le_iff_toNat_le, Bool.and_eq_true, decide_eq_true_eq]
  split_ifs <;> simp_all

theorem isSpace_of_hexDigit {b : UInt8} (h : (hexDigit? b).isSome) : isSpace b = false := by
  rw [hexDigit?_isSome_iff] at h
  rw [Bool.eq_false_iff, ne_eq, isSpace_iff]
  omega

/-- Nothing but digits stands in front of hexadecimal digits. -/
theorem HexDigits.head_ne {b c : UInt8} {bs : Bytes} (h : HexDigits (b :: bs))
    (hc : hexDigit? c = none) : b ≠ c := by
  rintro rfl
  have hsome := h.digits b List.mem_cons_self
  rw [hc] at hsome
  cases hsome

theorem HexDigits.notMem {c : UInt8} {bs : Bytes} (h : HexDigits bs) (hc : hexDigit? c = none) :
    c ∉ bs := fun hmem => by
  have hsome := h.digits c hmem
  rw [hc] at hsome
  cases hsome

theorem mapM_hexDigit? {bs : Bytes} (h : ∀ b ∈ bs, (hexDigit? b).isSome) :
    bs.mapM hexDigit? = some (bs.map fun b => (hexDigit? b).getD 0) := by
  induction bs with
  | nil => rfl
  | cons b bs ih =>
      obtain ⟨d, hd⟩ := Option.isSome_iff_exists.mp (h b List.mem_cons_self)
      simp [hd, ih fun c hc => h c (List.mem_cons_of_mem b hc)]

theorem HexDigits.unprefixed {bs : Bytes} (h : HexDigits bs) : unprefixed bs = bs := by
  have hx : (0x78 : UInt8) ∉ bs := h.notMem (by decide)
  have hX : (0x58 : UInt8) ∉ bs := h.notMem (by decide)
  unfold PyBytes.unprefixed
  split <;> simp_all

/-- `int` reads plain digits. -/
theorem HexDigits.int16 {bs : Bytes} (h : HexDigits bs) : int16 bs = some (hexValue bs : ℤ) := by
  have hsplit : bs.splitOn underscore = [bs] :=
    List.splitOn_eq_singleton (h.notMem (by decide))
  have hunsigned : unsignedInt16 bs = some (hexValue bs) := by
    simp [unsignedInt16, h.unprefixed, hsplit, h.nonempty.symm, mapM_hexDigit? h.digits, hexValue,
      List.foldl_map]
  rw [PyBytes.int16, strip_of_forall fun b hb => isSpace_of_hexDigit (h.digits b hb)]
  split
  · exact absurd rfl (h.head_ne (by decide))
  · exact absurd rfl (h.head_ne (by decide))
  · rw [hunsigned]
    rfl

end PyBytes

import Perpetua.Lib.JsonParser

/-!
# What `json.dumps` writes, `json.loads` reads

Strings first, then numbers, then values by induction on the value. A text that follows a number
must not continue it, which no text that `dumps` puts there does.
-/

namespace Json

/-! ## Strings -/

theorem hexValue?_hexDigit (n : ℕ) : hexValue? (hexDigit n) = some (n % 16) := by
  have hall : ∀ m < 16, hexValue? (Nat.digitChar m) = some m := by decide
  exact hall (n % 16) (Nat.mod_lt n (by decide))

theorem scanUnit_escapeUnit {n : ℕ} (hn : n < 0x10000) (rest : List Char) :
    scanUnit (hexDigit (n / 4096) :: hexDigit (n / 256) :: hexDigit (n / 16) :: hexDigit n :: rest) =
      some (n, rest) := by
  have hunit : ((n / 4096 % 16 * 16 + n / 256 % 16) * 16 + n / 16 % 16) * 16 + n % 16 = n := by omega
  simp only [scanUnit, hexValue?_hexDigit, Option.bind_eq_bind, Option.bind_some, hunit]

theorem scanChar_of_escape {cs rest : List Char} {c : Char} (h : scanEscape cs = some (c, rest)) :
    scanChar ('\\' :: cs) = some (some c, rest) := by
  rw [scanChar, if_neg (by decide), if_pos rfl, h, Option.map_some]

theorem scanChar_escapeUnit {n : ℕ} (hn : n < 0x10000) (hplain : n < 0xD800 ∨ 0xDFFF < n)
    (rest : List Char) : scanChar (escapeUnit n ++ rest) = some (some (Char.ofNat n), rest) := by
  refine scanChar_of_escape ?_
  simp only [List.append_eq, List.cons_append, List.nil_append, scanEscape, scanUnit_escapeUnit hn,
    Option.bind_eq_bind, Option.bind_some]
  rw [if_neg (by omega), if_neg (by omega)]

theorem scanLowSurrogate_escapeUnit {high low : ℕ} (hlow : 0xDC00 ≤ low) (hmax : low ≤ 0xDFFF)
    (rest : List Char) : scanLowSurrogate high (escapeUnit low ++ rest) =
      some (Char.ofNat (0x10000 + (high - 0xD800) * 0x400 + (low - 0xDC00)), rest) := by
  have hunit := scanUnit_escapeUnit (show low < 0x10000 by omega) rest
  simp only [escapeUnit, List.cons_append, List.nil_append, scanLowSurrogate, hunit,
    Option.bind_eq_bind, Option.bind_some]
  rw [if_pos ⟨hlow, hmax⟩]

/-- The halves of a surrogate pair. -/
theorem scanChar_surrogates {high low : ℕ} (hhigh : 0xD800 ≤ high ∧ high ≤ 0xDBFF)
    (hlow : 0xDC00 ≤ low ∧ low ≤ 0xDFFF) (rest : List Char) :
    scanChar (escapeUnit high ++ escapeUnit low ++ rest) =
      some (some (Char.ofNat (0x10000 + (high - 0xD800) * 0x400 + (low - 0xDC00))), rest) := by
  have hunit := scanUnit_escapeUnit (show high < 0x10000 by omega) (escapeUnit low ++ rest)
  rw [List.append_assoc]
  refine scanChar_of_escape ?_
  simp only [List.append_eq, List.cons_append, List.nil_append, scanEscape, hunit,
    Option.bind_eq_bind, Option.bind_some]
  rw [if_pos hhigh, scanLowSurrogate_escapeUnit hlow.1 hlow.2]

theorem scanChar_escapeChar (c : Char) (rest : List Char) :
    scanChar (escapeChar c ++ rest) = some (some c, rest) := by
  unfold escapeChar
  split
  · rename_i h; rw [h]; exact scanChar_of_escape rfl
  split
  · rename_i h; rw [h]; exact scanChar_of_escape rfl
  split
  · rename_i h; rw [h]; exact scanChar_of_escape rfl
  split
  · rename_i h; rw [h]; exact scanChar_of_escape rfl
  split
  · rename_i h; rw [h]; exact scanChar_of_escape rfl
  split
  · rename_i h
    rw [Char.toNat_inj.mp (h.trans (by decide : 0x0C = '\x0c'.toNat))]
    exact scanChar_of_escape rfl
  split
  · rename_i h
    rw [Char.toNat_inj.mp (h.trans (by decide : 0x08 = '\x08'.toNat))]
    exact scanChar_of_escape rfl
  split
  · rename_i hquote hslash _ _ _ _ _ hplain
    rw [List.singleton_append, scanChar, if_neg hquote, if_neg hslash, if_neg (by omega)]
  have hvalid : c.toNat < 0xD800 ∨ 0xDFFF < c.toNat ∧ c.toNat < 0x110000 := c.valid
  split
  · rename_i hsmall
    rw [scanChar_escapeUnit hsmall (by omega), Char.ofNat_toNat]
  · have hpair : 0x10000 + (0xD800 + (c.toNat - 0x10000) / 0x400 - 0xD800) * 0x400 +
        (0xDC00 + (c.toNat - 0x10000) % 0x400 - 0xDC00) = c.toNat := by omega
    rw [scanChar_surrogates (by omega) (by omega), hpair, Char.ofNat_toNat]

theorem escapeChar_ne_nil (c : Char) : escapeChar c ≠ [] := by
  unfold escapeChar
  repeat' split
  all_goals simp [escapeUnit]

theorem scanString_escape (cs rest : List Char) {fuel : ℕ} (hfuel : cs.length < fuel) :
    scanString fuel (cs.flatMap escapeChar ++ '"' :: rest) = some (cs, rest) := by
  induction cs generalizing fuel with
  | nil =>
      obtain ⟨fuel, rfl⟩ := Nat.exists_eq_succ_of_ne_zero (Nat.ne_of_gt hfuel)
      rfl
  | cons c cs ih =>
      obtain ⟨fuel, rfl⟩ := Nat.exists_eq_succ_of_ne_zero (Nat.ne_of_gt (Nat.zero_lt_of_lt hfuel))
      rw [List.flatMap_cons, List.append_assoc, scanString, scanChar_escapeChar]
      simp only
      rw [ih (by rw [List.length_cons] at hfuel; omega), Option.map_some]

/-! ## Numbers -/

/-- The text does not begin with a digit. -/
def DigitEnd (rest : List Char) : Prop := ∀ c, rest.head? = some c → c.isDigit = false

/-- The text does not continue a number. -/
def NumberEnd (rest : List Char) : Prop :=
  ∀ c, rest.head? = some c → c.isDigit = false ∧ c ≠ '.' ∧ c ≠ 'e' ∧ c ≠ 'E'

theorem NumberEnd.digitEnd {rest : List Char} (h : NumberEnd rest) : DigitEnd rest :=
  fun c hc => (h c hc).1

theorem digitsOf_append {ds rest : List Char} (hds : ∀ c ∈ ds, c.isDigit) (hrest : DigitEnd rest) :
    digitsOf (ds ++ rest) = (ds, rest) := by
  rw [digitsOf, List.takeWhile_append_of_pos hds, List.dropWhile_append_of_pos hds]
  cases rest with
  | nil => simp
  | cons c rest =>
      rw [List.takeWhile_cons_of_neg (by simp [hrest c rfl]),
        List.dropWhile_cons_of_neg (by simp [hrest c rfl]), List.append_nil]

theorem scanFraction_text {ds rest : List Char} (hds : ∀ c ∈ ds, c.isDigit) (hrest : DigitEnd rest)
    (hpoint : rest.head? ≠ some '.') : scanFraction (fractionText ds ++ rest) = (ds, rest) := by
  cases ds with
  | nil =>
      rw [fractionText, List.nil_append]
      unfold scanFraction
      split
      · exact absurd rfl hpoint
      · rfl
  | cons d ds =>
      rw [fractionText, List.cons_append, scanFraction, digitsOf_append hds hrest]
      exact List.cons_ne_nil d ds

theorem scanExponent_text {e : Option (Option Bool × List Char)} {rest : List Char}
    (he : ∀ p ∈ e, p.2 ≠ [] ∧ ∀ c ∈ p.2, c.isDigit) (hrest : NumberEnd rest) :
    scanExponent (exponentText e ++ rest) = (e, rest) := by
  have hdigits : ∀ sign ds cs, scanSign cs = (sign, ds ++ rest) → ds ≠ [] → (∀ c ∈ ds, c.isDigit) →
      scanExponent ('e' :: cs) = (some (sign, ds), rest) := by
    intro sign ds cs hsign hne hds
    rw [scanExponent, if_pos (Or.inl rfl), hsign, digitsOf_append hds hrest.digitEnd]
    cases ds with
    | nil => exact absurd rfl hne
    | cons d ds => rfl
  rcases e with _ | ⟨sign, ds⟩
  · rw [exponentText, List.nil_append]
    cases rest with
    | nil => rfl
    | cons c rest =>
        obtain ⟨-, -, he, hE⟩ := hrest c rfl
        rw [scanExponent, if_neg (by tauto)]
  · obtain ⟨hne, hds⟩ := he _ rfl
    rcases sign with _ | _ | _
    · refine hdigits none ds _ ?_ hne hds
      cases ds with
      | nil => exact absurd rfl hne
      | cons d ds =>
          have hd := hds d List.mem_cons_self
          unfold scanSign
          split
          · rename_i heq; cases heq; cases hd
          · rename_i heq; cases heq; cases hd
          · rfl
    · exact hdigits (some false) ds _ rfl hne hds
    · exact hdigits (some true) ds _ rfl hne hds

theorem FloatLit.ofParts?_self (f : FloatLit) :
    ofParts? f.negative f.whole f.fraction f.exponent = some f := by
  rw [ofParts?, dif_pos ⟨f.whole_digits, f.whole_form, f.fraction_digits, f.exponent_digits, f.float⟩]

theorem head?_fractionText (ds rest : List Char) :
    (fractionText ds ++ rest).head? = if ds = [] then rest.head? else some '.' := by
  cases ds <;> simp [fractionText]

theorem head?_exponentText (e : Option (Option Bool × List Char)) (rest : List Char) :
    (exponentText e ++ rest).head? = if e = none then rest.head? else some 'e' := by
  rcases e with _ | ⟨_ | _ | _, ds⟩ <;> simp [exponentText]

/-- The parts of a literal, read back in order. -/
theorem scanUnsigned_parts {negative : Bool} {whole fraction rest : List Char}
    {exponent : Option (Option Bool × List Char)} (hwhole : ∀ c ∈ whole, c.isDigit)
    (hfraction : ∀ c ∈ fraction, c.isDigit)
    (hexponent : ∀ p ∈ exponent, p.2 ≠ [] ∧ ∀ c ∈ p.2, c.isDigit) (hrest : NumberEnd rest) :
    scanUnsigned negative (whole ++ (fractionText fraction ++ (exponentText exponent ++ rest))) =
      if fraction = [] ∧ exponent = none then
        if whole = ['0'] ∨ whole ≠ [] ∧ whole.head? ≠ some '0' then
          some (.int (if negative then -(Nat.ofDigitChars 10 whole 0 : ℤ)
            else Nat.ofDigitChars 10 whole 0), rest)
        else none
      else (FloatLit.ofParts? negative whole fraction exponent).map fun f => (.float f, rest) := by
  have hexp : DigitEnd (exponentText exponent ++ rest) ∧
      (exponentText exponent ++ rest).head? ≠ some '.' := by
    refine ⟨fun c hc => ?_, fun hc => ?_⟩
    · rw [head?_exponentText] at hc
      split at hc
      · exact hrest.digitEnd c hc
      · cases hc; rfl
    · rw [head?_exponentText] at hc
      split at hc
      · exact (hrest '.' hc).2.1 rfl
      · cases hc
  have hfrac : DigitEnd (fractionText fraction ++ (exponentText exponent ++ rest)) := by
    intro c hc
    rw [head?_fractionText] at hc
    split at hc
    · exact hexp.1 c hc
    · cases hc; rfl
  rw [scanUnsigned, digitsOf_append hwhole hfrac]
  simp only [scanFraction_text hfraction hexp.1 hexp.2, scanExponent_text hexponent hrest]

theorem scanNumber_unsigned {c : Char} (hc : c.isDigit) (cs : List Char) :
    scanNumber (c :: cs) = scanUnsigned false (c :: cs) := by
  unfold scanNumber
  split
  · rename_i heq; cases heq; cases hc
  · rename_i heq; cases heq; cases hc
  · rename_i heq; cases heq; cases hc
  · rename_i heq; cases heq; cases hc
  · rfl

theorem scanNumber_negative {c : Char} (hc : c.isDigit) (cs : List Char) :
    scanNumber ('-' :: c :: cs) = scanUnsigned true (c :: cs) := by
  unfold scanNumber
  split
  · rename_i heq; cases heq
  · rename_i heq; cases heq
  · rename_i heq; cases heq; cases hc
  · rename_i heq; cases heq; rfl
  · rename_i hminus; exact absurd rfl (hminus (c :: cs))

theorem scanNumber_float (f : FloatLit) {rest : List Char} (hrest : NumberEnd rest) :
    scanNumber (f.text ++ rest) = some (.float f, rest) := by
  have hparts : ∀ negative, negative = f.negative → scanUnsigned negative
      (f.whole ++ (fractionText f.fraction ++ (exponentText f.exponent ++ rest))) =
        some (.float f, rest) := by
    rintro _ rfl
    rw [scanUnsigned_parts f.whole_digits f.fraction_digits f.exponent_digits hrest,
      f.ofParts?_self, if_neg, Option.map_some]
    rintro ⟨hfraction, hexponent⟩
    rcases f.float with h | h
    · exact h hfraction
    · rw [hexponent] at h; cases h
  obtain ⟨d, ds, hwhole⟩ : ∃ d ds, f.whole = d :: ds := List.exists_cons_of_ne_nil (by
    rcases f.whole_form with h | h
    · rw [h]; exact List.cons_ne_nil _ _
    · exact h.1)
  have hd : d.isDigit := f.whole_digits d (by rw [hwhole]; exact List.mem_cons_self)
  simp only [FloatLit.text, List.append_assoc]
  rw [hwhole, List.cons_append] at hparts ⊢
  cases hneg : f.negative with
  | false => rw [if_neg Bool.false_ne_true, List.nil_append, scanNumber_unsigned hd, hparts _ hneg.symm]
  | true => rw [if_pos rfl, List.singleton_append, scanNumber_negative hd, hparts _ hneg.symm]

/-- A decimal numeral has no leading zero. -/
theorem toDigits_form (n : ℕ) : Nat.toDigits 10 n = ['0'] ∨
    Nat.toDigits 10 n ≠ [] ∧ (Nat.toDigits 10 n).head? ≠ some '0' := by
  induction n using Nat.strongRecOn with
  | ind n ih =>
      by_cases hn : n < 10
      · rw [Nat.toDigits_of_lt_base hn]
        by_cases h0 : n = 0
        · subst h0; exact Or.inl rfl
        · exact Or.inr ⟨List.cons_ne_nil _ _, by simpa using h0⟩
      · right
        rw [Nat.toDigits_of_base_le (by decide) (by omega)]
        refine ⟨by simp, ?_⟩
        rcases ih (n / 10) (by omega) with h | ⟨hne, hhead⟩
        · have hval := @Nat.ofDigitChars_ten_toDigits (n / 10)
          rw [h] at hval
          have : n / 10 = 0 := hval.symm
          omega
        · obtain ⟨d, ds, hds⟩ := List.exists_cons_of_ne_nil hne
          rw [hds] at hhead ⊢
          exact hhead

theorem scanNumber_int (n : ℤ) {rest : List Char} (hrest : NumberEnd rest) :
    scanNumber (intText n ++ rest) = some (.int n, rest) := by
  have hdigits : ∀ c ∈ Nat.toDigits 10 n.natAbs, c.isDigit := fun c hc =>
    Nat.isDigit_of_mem_toDigits (by decide) (by decide) hc
  have hparts : ∀ negative, scanUnsigned negative (Nat.toDigits 10 n.natAbs ++ rest) =
      some (.int (if negative then -(n.natAbs : ℤ) else n.natAbs), rest) := fun negative => by
    have h : scanUnsigned negative
        (Nat.toDigits 10 n.natAbs ++ (fractionText [] ++ (exponentText none ++ rest))) = _ :=
      scanUnsigned_parts hdigits nofun nofun hrest
    rwa [if_pos ⟨rfl, rfl⟩, if_pos (toDigits_form _), Nat.ofDigitChars_ten_toDigits] at h
  obtain ⟨d, ds, hds⟩ := List.exists_cons_of_ne_nil (@Nat.toDigits_ne_nil n.natAbs 10)
  have hd : d.isDigit := hdigits d (by rw [hds]; exact List.mem_cons_self)
  rw [hds, List.cons_append] at hparts
  rw [intText, hds]
  split
  · rw [List.cons_append, List.cons_append, scanNumber_negative hd, hparts true, if_pos rfl]
    congr 3
    omega
  · rw [List.cons_append, scanNumber_unsigned hd, hparts false, if_neg Bool.false_ne_true]
    congr 3
    omega

theorem scanNumber_text (n : Number) {rest : List Char} (hrest : NumberEnd rest) :
    scanNumber (n.text ++ rest) = some (n, rest) := by
  cases n with
  | int n => exact scanNumber_int n hrest
  | float f => exact scanNumber_float f hrest
  | nan => rfl
  | infinity => rfl
  | negInfinity => rfl

/-! ## Values -/

/-- No object has a key twice. -/
inductive Value.DistinctKeys : Value → Prop
  | null : DistinctKeys .null
  | bool (b : Bool) : DistinctKeys (.bool b)
  | num (n : Number) : DistinctKeys (.num n)
  | str (s : String) : DistinctKeys (.str s)
  | arr {items : List Value} (h : ∀ v ∈ items, DistinctKeys v) : DistinctKeys (.arr items)
  | obj {fields : List (String × Value)} (hkeys : (fields.map Prod.fst).Nodup)
      (h : ∀ e ∈ fields, DistinctKeys e.2) : DistinctKeys (.obj fields)

/-- A comma and a colon, each followed by blanks only. -/
structure Separators.Readable (sep : Separators) : Prop where
  item : ∃ blanks, sep.item = ',' :: blanks ∧ ∀ c ∈ blanks, isBlank c
  key : ∃ blanks, sep.key = ':' :: blanks ∧ ∀ c ∈ blanks, isBlank c

theorem spaced_readable : spaced.Readable :=
  ⟨⟨[' '], rfl, by simp [isBlank]⟩, ⟨[' '], rfl, by simp [isBlank]⟩⟩

theorem compact_readable : compact.Readable :=
  ⟨⟨[], rfl, List.forall_mem_nil _⟩, ⟨[], rfl, List.forall_mem_nil _⟩⟩

/-- A character that no value begins with is a blank or closes something. -/
def Opens (c : Char) : Prop := isBlank c = false ∧ c ≠ ']' ∧ c ≠ '\x7d'

theorem intText_head (n : ℤ) : ∃ c cs, intText n = c :: cs ∧ (c = '-' ∨ c.isDigit) := by
  unfold intText
  split
  · exact ⟨'-', _, rfl, Or.inl rfl⟩
  · obtain ⟨d, ds, hds⟩ := List.exists_cons_of_ne_nil (@Nat.toDigits_ne_nil n.natAbs 10)
    exact ⟨d, ds, hds, Or.inr (Nat.isDigit_of_mem_toDigits (by decide) (by decide)
      (hds ▸ List.mem_cons_self))⟩

theorem floatText_head (f : FloatLit) : ∃ c cs, f.text = c :: cs ∧ (c = '-' ∨ c.isDigit) := by
  unfold FloatLit.text
  cases f.negative with
  | true => exact ⟨'-', _, rfl, Or.inl rfl⟩
  | false =>
      obtain ⟨d, ds, hds⟩ : ∃ d ds, f.whole = d :: ds := List.exists_cons_of_ne_nil (by
        rcases f.whole_form with h | h
        · rw [h]; exact List.cons_ne_nil _ _
        · exact h.1)
      exact ⟨d, _, by rw [hds]; rfl, Or.inr (f.whole_digits d (hds ▸ List.mem_cons_self))⟩

theorem numberText_head (n : Number) :
    ∃ c cs, n.text = c :: cs ∧ (c = '-' ∨ c = 'N' ∨ c = 'I' ∨ c.isDigit) := by
  cases n with
  | int n =>
      obtain ⟨c, cs, h, hc⟩ := intText_head n
      exact ⟨c, cs, h, by tauto⟩
  | float f =>
      obtain ⟨c, cs, h, hc⟩ := floatText_head f
      exact ⟨c, cs, h, by tauto⟩
  | nan => exact ⟨'N', _, rfl, by tauto⟩
  | infinity => exact ⟨'I', _, rfl, by tauto⟩
  | negInfinity => exact ⟨'-', _, rfl, by tauto⟩

theorem opens_of_number {c : Char} (hc : c = '-' ∨ c = 'N' ∨ c = 'I' ∨ c.isDigit) :
    Opens c ∧ c ≠ '"' ∧ c ≠ '\x7b' ∧ c ≠ '[' ∧ c ≠ 'n' ∧ c ≠ 't' ∧ c ≠ 'f' := by
  rcases hc with rfl | rfl | rfl | hc
  · simp [Opens, isBlank]
  · simp [Opens, isBlank]
  · simp [Opens, isBlank]
  · have hne : ∀ d : Char, d.isDigit = false → c ≠ d := by
      rintro d hd rfl
      rw [hc] at hd
      cases hd
    simp [Opens, isBlank, hne]

theorem dumps_head (sep : Separators) (v : Value) : ∃ c cs, dumps sep v = c :: cs ∧ Opens c := by
  cases v with
  | null => exact ⟨'n', _, rfl, by simp [Opens, isBlank]⟩
  | bool b =>
      cases b with
      | true => exact ⟨'t', _, rfl, by simp [Opens, isBlank]⟩
      | false => exact ⟨'f', _, rfl, by simp [Opens, isBlank]⟩
  | num n =>
      obtain ⟨c, cs, h, hc⟩ := numberText_head n
      exact ⟨c, cs, by rw [dumps, h], (opens_of_number hc).1⟩
  | str s => exact ⟨'"', _, rfl, by simp [Opens, isBlank]⟩
  | arr items => cases items <;> exact ⟨'[', _, rfl, by simp [Opens, isBlank]⟩
  | obj fields => cases fields <;> exact ⟨'\x7b', _, rfl, by simp [Opens, isBlank]⟩

theorem skipBlanks_of_opens {c : Char} (hc : Opens c) (cs : List Char) :
    skipBlanks (c :: cs) = c :: cs := List.dropWhile_cons_of_neg (by simp [hc.1])

theorem skipBlanks_dumps (sep : Separators) (v : Value) {blanks : List Char}
    (hblanks : ∀ c ∈ blanks, isBlank c) (rest : List Char) :
    skipBlanks (blanks ++ (dumps sep v ++ rest)) = dumps sep v ++ rest := by
  obtain ⟨c, cs, h, hc⟩ := dumps_head sep v
  rw [skipBlanks, List.dropWhile_append_of_pos hblanks, h, List.cons_append]
  exact skipBlanks_of_opens hc _

/-! ### One value -/

theorem scanValue_number {c : Char} (hc : c = '-' ∨ c = 'N' ∨ c = 'I' ∨ c.isDigit) (fuel : ℕ)
    (cs : List Char) :
    scanValue (fuel + 1) (c :: cs) = (scanNumber (c :: cs)).map fun p => (.num p.1, p.2) := by
  obtain ⟨-, hquote, hbrace, hbracket, hn, ht, hf⟩ := opens_of_number hc
  rw [scanValue]
  all_goals
    intro _ heq
    cases heq
    contradiction

theorem scanValue_arr {c : Char} (hc : Opens c) (fuel : ℕ) (cs : List Char) :
    scanValue (fuel + 1) ('[' :: c :: cs) =
      (scanItems fuel (c :: cs)).map fun p => (.arr p.1, p.2) := by
  rw [scanValue]
  simp only [skipBlanks_of_opens hc]
  split
  · rename_i heq; cases heq; exact absurd rfl hc.2.1
  · rfl

theorem scanValue_obj (fuel : ℕ) (cs : List Char) :
    scanValue (fuel + 1) ('\x7b' :: '"' :: cs) =
      (scanFields fuel [] ('"' :: cs)).map fun p => (.obj p.1, p.2) := by
  rw [scanValue]
  rfl

theorem scanString_escapeString (s : String) (rest : List Char) {fuel : ℕ}
    (hfuel : (escapeString s).length ≤ fuel + 1) :
    scanString fuel ((escapeString s).tail ++ rest) = some (s.toList, rest) := by
  have hlen : s.toList.length ≤ (s.toList.flatMap escapeChar).length := by
    induction s.toList with
    | nil => exact Nat.le_refl 0
    | cons c cs ih =>
        rw [List.flatMap_cons, List.length_append, List.length_cons]
        have := List.length_pos_iff.mpr (escapeChar_ne_nil c)
        omega
  have htail : (escapeString s).tail ++ rest = s.toList.flatMap escapeChar ++ '"' :: rest := by
    simp [escapeString]
  rw [htail]
  refine scanString_escape _ _ ?_
  simp only [escapeString, List.cons_append, List.length_cons, List.length_append] at hfuel
  omega

/-! ### All values -/

/-- The text of the value is read back whatever follows it. -/
def Reads (sep : Separators) (v : Value) : Prop :=
  ∀ fuel rest, (dumps sep v).length ≤ fuel → NumberEnd rest →
    scanValue fuel (dumps sep v ++ rest) = some (v, rest)

theorem numberEnd_dumpsItems {sep : Separators} (hsep : sep.Readable) (vs : List Value)
    (rest : List Char) : NumberEnd (dumpsItems sep vs ++ rest) := by
  obtain ⟨blanks, hitem, -⟩ := hsep.item
  cases vs with
  | nil => rintro c ⟨⟩; decide
  | cons v vs => rw [dumpsItems, hitem]; rintro c ⟨⟩; decide

theorem numberEnd_dumpsFields {sep : Separators} (hsep : sep.Readable)
    (fs : List (String × Value)) (rest : List Char) : NumberEnd (dumpsFields sep fs ++ rest) := by
  obtain ⟨blanks, hitem, -⟩ := hsep.item
  cases fs with
  | nil => rintro c ⟨⟩; decide
  | cons f fs => rw [dumpsFields, hitem]; rintro c ⟨⟩; decide

theorem scanItems_dumps {sep : Separators} (hsep : sep.Readable) (v : Value) (vs : List Value)
    (hreads : ∀ w ∈ v :: vs, Reads sep w) (fuel : ℕ) (rest : List Char)
    (hfuel : (dumps sep v ++ dumpsItems sep vs).length ≤ fuel) :
    scanItems fuel (dumps sep v ++ (dumpsItems sep vs ++ rest)) = some (v :: vs, rest) := by
  obtain ⟨blanks, hitem, hblanks⟩ := hsep.item
  induction vs generalizing v fuel with
  | nil =>
      rw [dumpsItems, List.length_append, List.length_singleton] at hfuel
      obtain ⟨fuel, rfl⟩ : ∃ n, fuel = n + 1 := ⟨fuel - 1, by omega⟩
      rw [scanItems, hreads v List.mem_cons_self fuel _ (by omega) (numberEnd_dumpsItems hsep [] rest)]
      rfl
  | cons w vs ih =>
      rw [dumpsItems, hitem] at hfuel
      simp only [List.length_append, List.length_cons] at hfuel
      obtain ⟨fuel, rfl⟩ : ∃ n, fuel = n + 1 := ⟨fuel - 1, by omega⟩
      rw [scanItems, hreads v List.mem_cons_self fuel _ (by omega)
        (numberEnd_dumpsItems hsep (w :: vs) rest), dumpsItems, hitem]
      simp only [List.cons_append, List.append_assoc, skipBlanks_of_opens (show Opens ',' by
        simp [Opens, isBlank]), skipBlanks_dumps sep w hblanks]
      rw [ih w (fun x hx => hreads x (List.mem_cons_of_mem _ hx)) fuel (by
        rw [List.length_append]; omega), Option.map_some]

theorem skipBlanks_escapeString {blanks : List Char} (hblanks : ∀ c ∈ blanks, isBlank c) (k : String)
    (rest : List Char) : skipBlanks (blanks ++ (escapeString k ++ rest)) = escapeString k ++ rest := by
  rw [skipBlanks, List.dropWhile_append_of_pos hblanks]
  exact skipBlanks_of_opens (by simp [Opens, isBlank]) _

/-- What the parser makes of the text behind a value, with the fields up to there. -/
def behindField (fuel : ℕ) (fields : List (String × Value)) :
    List Char → Option (List (String × Value) × List Char)
  | '\x7d' :: cs => some (fields, cs)
  | ',' :: cs => scanFields fuel fields (skipBlanks cs)
  | _ => none

/-- One field, up to what follows its value. -/
theorem scanFields_field {sep : Separators} (hsep : sep.Readable) {k : String} {v : Value}
    {acc : List (String × Value)} (hread : Reads sep v) {fuel : ℕ} {tail : List Char}
    (hfuel : (escapeString k).length ≤ fuel ∧ (dumps sep v).length ≤ fuel) (htail : NumberEnd tail) :
    scanFields (fuel + 1) acc (escapeString k ++ (sep.key ++ (dumps sep v ++ tail))) =
      behindField fuel (Entries.set acc k v) (skipBlanks tail) := by
  obtain ⟨colon, hkey, hcolon⟩ := hsep.key
  have hstring := scanString_escapeString k (sep.key ++ (dumps sep v ++ tail))
    (Nat.le_succ_of_le hfuel.1)
  have hquote : escapeString k = '"' :: (escapeString k).tail := rfl
  rw [hquote, List.cons_append, scanFields]
  simp only
  rw [hstring, hkey]
  simp only [List.cons_append, skipBlanks_of_opens (show Opens ':' by simp [Opens, isBlank]),
    skipBlanks_dumps sep v hcolon, hread fuel tail hfuel.2 htail, String.ofList_toList]
  rfl

theorem notMem_of_nodup {k : String} {v : Value} {acc fs : List (String × Value)}
    (h : ((acc ++ (k, v) :: fs).map Prod.fst).Nodup) : k ∉ acc.map Prod.fst := by
  rw [List.map_append, List.map_cons, List.nodup_append] at h
  exact fun hk => h.2.2 k hk k List.mem_cons_self rfl

theorem scanFields_dumps {sep : Separators} (hsep : sep.Readable) (k : String) (v : Value)
    (fs acc : List (String × Value)) (hreads : ∀ e ∈ (k, v) :: fs, Reads sep e.2)
    (hkeys : ((acc ++ (k, v) :: fs).map Prod.fst).Nodup) (fuel : ℕ) (rest : List Char)
    (hfuel : (escapeString k ++ (sep.key ++ (dumps sep v ++ dumpsFields sep fs))).length ≤ fuel) :
    scanFields fuel acc
      (escapeString k ++ (sep.key ++ (dumps sep v ++ (dumpsFields sep fs ++ rest)))) =
        some (acc ++ (k, v) :: fs, rest) := by
  obtain ⟨blanks, hitem, hblanks⟩ := hsep.item
  have hread : Reads sep v := hreads (k, v) List.mem_cons_self
  induction fs generalizing k v acc fuel with
  | nil =>
      simp only [List.length_append, dumpsFields, List.length_singleton] at hfuel
      obtain ⟨fuel, rfl⟩ : ∃ n, fuel = n + 1 := ⟨fuel - 1, by omega⟩
      rw [scanFields_field hsep hread ⟨by omega, by omega⟩ (numberEnd_dumpsFields hsep [] rest),
        ← Entries.set_of_notMem (notMem_of_nodup hkeys) v]
      rfl
  | cons f fs ih =>
      obtain ⟨k', v'⟩ := f
      have hset := Entries.set_of_notMem (notMem_of_nodup hkeys) v
      simp only [List.length_append, dumpsFields, hitem, List.length_cons] at hfuel
      obtain ⟨fuel, rfl⟩ : ∃ n, fuel = n + 1 := ⟨fuel - 1, by omega⟩
      rw [scanFields_field hsep hread ⟨by omega, by omega⟩
        (numberEnd_dumpsFields hsep ((k', v') :: fs) rest), hset, dumpsFields, hitem]
      simp only [behindField, List.cons_append, List.append_assoc, skipBlanks_of_opens (show Opens ',' by
        simp [Opens, isBlank]), skipBlanks_escapeString hblanks]
      rw [ih k' v' (acc ++ [(k, v)]) (fun e he => hreads e (List.mem_cons_of_mem _ he))
        (by simpa using hkeys) fuel (by simp only [List.length_append]; omega)
        (hreads (k', v') (by simp))]
      simp

/-- What `dumps` writes, the parser reads back. -/
theorem scanValue_dumps {sep : Separators} (hsep : sep.Readable) {v : Value} (hv : v.DistinctKeys) :
    Reads sep v := by
  induction hv with
  | null =>
      intro fuel rest hfuel _
      obtain ⟨fuel, rfl⟩ : ∃ n, fuel = n + 1 := ⟨fuel - 1, by simp [dumps] at hfuel; omega⟩
      rfl
  | bool b =>
      intro fuel rest hfuel _
      obtain ⟨fuel, rfl⟩ : ∃ n, fuel = n + 1 := ⟨fuel - 1, by cases b <;> simp [dumps] at hfuel <;> omega⟩
      cases b <;> rfl
  | num n =>
      intro fuel rest hfuel hrest
      obtain ⟨c, cs, htext, hc⟩ := numberText_head n
      have hscan := scanNumber_text n hrest
      rw [dumps, htext] at hfuel ⊢
      rw [htext, List.cons_append] at hscan
      obtain ⟨fuel, rfl⟩ : ∃ m, fuel = m + 1 := ⟨fuel - 1, by rw [List.length_cons] at hfuel; omega⟩
      rw [List.cons_append, scanValue_number hc, hscan, Option.map_some]
  | str s =>
      intro fuel rest hfuel _
      rw [dumps] at hfuel ⊢
      have hquote : escapeString s = '"' :: (escapeString s).tail := rfl
      obtain ⟨fuel, rfl⟩ : ∃ n, fuel = n + 1 := ⟨fuel - 1, by rw [hquote, List.length_cons] at hfuel; omega⟩
      rw [hquote, List.cons_append, scanValue]
      rw [scanString_escapeString s rest hfuel, Option.map_some, String.ofList_toList]
  | @arr items _ ih =>
      intro fuel rest hfuel _
      cases items with
      | nil =>
          obtain ⟨fuel, rfl⟩ : ∃ n, fuel = n + 1 := ⟨fuel - 1, by simp [dumps] at hfuel; omega⟩
          rfl
      | cons v vs =>
          rw [dumps, List.cons_append] at hfuel ⊢
          rw [List.length_cons] at hfuel
          obtain ⟨fuel, rfl⟩ : ∃ n, fuel = n + 1 := ⟨fuel - 1, by omega⟩
          have hitems := scanItems_dumps hsep v vs ih fuel rest (by omega)
          obtain ⟨c, cs, hhead, hc⟩ := dumps_head sep v
          rw [List.cons_append, List.append_assoc]
          rw [hhead, List.cons_append] at hitems ⊢
          rw [scanValue_arr hc, hitems, Option.map_some]
  | @obj fields hkeys _ ih =>
      intro fuel rest hfuel _
      cases fields with
      | nil =>
          obtain ⟨fuel, rfl⟩ : ∃ n, fuel = n + 1 := ⟨fuel - 1, by simp [dumps] at hfuel; omega⟩
          rfl
      | cons f fs =>
          obtain ⟨k, v⟩ := f
          simp only [dumps, List.cons_append, List.append_assoc, List.length_cons] at hfuel ⊢
          obtain ⟨fuel, rfl⟩ : ∃ n, fuel = n + 1 := ⟨fuel - 1, by omega⟩
          have hfields := scanFields_dumps hsep k v fs [] ih hkeys fuel rest (by omega)
          have hquote : escapeString k = '"' :: (escapeString k).tail := rfl
          rw [hquote, List.cons_append] at hfields ⊢
          rw [scanValue_obj, hfields, Option.map_some, List.nil_append]

/-- What `json.dumps` writes is parsed as what was written. -/
theorem parse_dumps {sep : Separators} (hsep : sep.Readable) {v : Value} (hv : v.DistinctKeys) :
    parse (dumps sep v) = some v := by
  have hread := scanValue_dumps hsep hv ((dumps sep v).length + 1) [] (by omega) nofun
  have hskip : skipBlanks ([] ++ (dumps sep v ++ [])) = _ :=
    skipBlanks_dumps sep v (List.forall_mem_nil _) []
  rw [List.append_nil] at hread hskip
  rw [parse, show skipBlanks (dumps sep v) = dumps sep v from hskip, hread]
  rfl

/-- `json.loads` after `json.dumps`, for a value whose floats are read as they are written. -/
theorem loads_dumps [FloatReader] {sep : Separators} (hsep : sep.Readable) {v : Value}
    (hv : v.DistinctKeys) (hread : v.read = v) : loads (dumps sep v) = some v := by
  rw [loads, parse_dumps hsep hv, Option.map_some, hread]

/-! ## Characters -/

/-- A printable ASCII character. -/
def printable (c : Char) : Bool := 0x20 ≤ c.toNat && c.toNat ≤ 0x7E

theorem printable_digit {c : Char} (hc : c.isDigit) : printable c := by
  simp only [Char.isDigit, Bool.and_eq_true, decide_eq_true_eq] at hc
  have hlow : (48 : ℕ) ≤ c.toNat := hc.1
  have hhigh : c.toNat ≤ 57 := hc.2
  simp only [printable, Bool.and_eq_true, decide_eq_true_eq]
  omega

theorem printable_digits {ds : List Char} (h : ∀ c ∈ ds, c.isDigit) : ds.all printable :=
  List.all_eq_true.mpr fun c hc => printable_digit (h c hc)

theorem printable_hexDigit (n : ℕ) : printable (hexDigit n) := by
  have hall : ∀ m < 16, printable (Nat.digitChar m) := by decide
  exact hall (n % 16) (Nat.mod_lt n (by decide))

theorem printable_escapeUnit (n : ℕ) : (escapeUnit n).all printable := by
  simp only [escapeUnit, List.all_cons, printable_hexDigit, List.all_nil, Bool.and_true]
  decide

theorem printable_escapeChar (c : Char) : (escapeChar c).all printable := by
  unfold escapeChar
  split
  · decide
  split
  · decide
  split
  · decide
  split
  · decide
  split
  · decide
  split
  · decide
  split
  · decide
  split
  · rename_i hplain
    simpa [printable] using hplain
  split
  · exact printable_escapeUnit _
  · rw [List.all_append, printable_escapeUnit, printable_escapeUnit, Bool.and_self]

theorem printable_escapeString (s : String) : (escapeString s).all printable := by
  have hquote : printable '"' := by decide
  rw [escapeString, List.all_append, List.all_cons, List.all_flatMap, List.all_cons, hquote]
  simp [printable_escapeChar]

theorem printable_int (n : ℤ) : (intText n).all printable := by
  have hdigits : (Nat.toDigits 10 n.natAbs).all printable := printable_digits fun c hc =>
    Nat.isDigit_of_mem_toDigits (by decide) (by decide) hc
  have hminus : printable '-' := by decide
  unfold intText
  split
  · rw [List.all_cons, hminus, hdigits, Bool.and_self]
  · exact hdigits

theorem printable_float (f : FloatLit) : f.text.all printable := by
  have hminus : printable '-' := by decide
  have hfraction : (fractionText f.fraction).all printable := by
    have hds := printable_digits f.fraction_digits
    cases hf : f.fraction with
    | nil => rfl
    | cons d ds =>
        rw [hf] at hds
        simp only [fractionText, List.all_cons, hds]
        decide
  have hexponent : (exponentText f.exponent).all printable := by
    rcases he : f.exponent with _ | ⟨sign, ds⟩
    · rfl
    · have hds := printable_digits (f.exponent_digits (sign, ds) he).2
      rcases sign with _ | _ | _ <;> simp only [exponentText, List.all_cons, hds] <;> decide
  rw [FloatLit.text, List.all_append, List.all_append, List.all_append,
    printable_digits f.whole_digits, hfraction, hexponent]
  split <;> simp [hminus]

theorem printable_number : ∀ n : Number, n.text.all printable
  | .int n => printable_int n
  | .float f => printable_float f
  | .nan | .infinity | .negInfinity => by decide

/-- `json.dumps` writes printable ASCII only. -/
theorem printable_dumps {sep : Separators} (hitem : sep.item.all printable)
    (hkey : sep.key.all printable) {v : Value} (hv : v.DistinctKeys) :
    (dumps sep v).all printable := by
  induction hv with
  | null => rw [dumps]; decide
  | bool b => cases b <;> rw [dumps] <;> decide
  | num n => exact printable_number n
  | str s => exact printable_escapeString s
  | @arr items _ ih =>
      have hitems : ∀ vs : List Value, (∀ v ∈ vs, (dumps sep v).all printable) →
          (dumpsItems sep vs).all printable := by
        intro vs hvs
        induction vs with
        | nil => rw [dumpsItems]; decide
        | cons v vs ihs =>
            rw [dumpsItems, List.all_append, List.all_append, hitem, hvs v List.mem_cons_self,
              ihs fun w hw => hvs w (List.mem_cons_of_mem _ hw)]
            rfl
      cases items with
      | nil => rw [dumps]; decide
      | cons v vs =>
          rw [dumps, List.all_append, List.all_cons, ih v List.mem_cons_self,
            hitems vs fun w hw => ih w (List.mem_cons_of_mem _ hw)]
          decide
  | @obj fields _ _ ih =>
      have hfields : ∀ fs : List (String × Value), (∀ e ∈ fs, (dumps sep e.2).all printable) →
          (dumpsFields sep fs).all printable := by
        intro fs hfs
        induction fs with
        | nil => rw [dumpsFields]; decide
        | cons f fs ihs =>
            obtain ⟨k, v⟩ := f
            simp only [dumpsFields, List.all_append, hitem, hkey, printable_escapeString,
              hfs (k, v) List.mem_cons_self, ihs fun e he => hfs e (List.mem_cons_of_mem _ he)]
            rfl
      cases fields with
      | nil => rw [dumps]; decide
      | cons f fs =>
          obtain ⟨k, v⟩ := f
          simp only [dumps, List.all_append, List.cons_append, List.all_cons, hkey,
            printable_escapeString, ih (k, v) List.mem_cons_self,
            hfields fs fun e he => ih e (List.mem_cons_of_mem _ he)]
          decide

/-! ## The ends of an object -/

theorem dumps_obj_head (sep : Separators) (fields : List (String × Value)) :
    ∃ cs, dumps sep (.obj fields) = '\x7b' :: cs := by
  cases fields with
  | nil => exact ⟨['\x7d'], rfl⟩
  | cons f fs =>
      obtain ⟨k, v⟩ := f
      rw [dumps]
      exact ⟨_, rfl⟩

theorem dumpsFields_getLast? (sep : Separators) (fs : List (String × Value)) :
    (dumpsFields sep fs).getLast? = some '\x7d' := by
  induction fs with
  | nil => rw [dumpsFields]; rfl
  | cons f fs ih =>
      obtain ⟨k, v⟩ := f
      rw [dumpsFields, List.getLast?_append, ih]
      rfl

theorem dumps_obj_getLast? (sep : Separators) (fields : List (String × Value)) :
    (dumps sep (.obj fields)).getLast? = some '\x7d' := by
  cases fields with
  | nil => rfl
  | cons f fs =>
      obtain ⟨k, v⟩ := f
      rw [dumps, List.getLast?_append, dumpsFields_getLast?]
      rfl

end Json

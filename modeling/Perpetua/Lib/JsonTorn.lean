import Perpetua.Lib.JsonRoundTrip
import Mathlib.Data.List.TakeWhile

/-!
# Torn texts

An automaton that follows only the brackets and the strings of a text. It reads whatever the parser
accepts, and ends with every bracket closed. So the parser does not accept the beginning of an
object with another object behind it.
-/

namespace Json

/-! ## The automaton -/

inductive Reader
  /-- Within `depth` brackets and outside of strings; `ended`: a string has just been closed. -/
  | between (depth : ℕ) (ended : Bool)
  | inString (depth : ℕ)
  | inEscape (depth : ℕ)
  /-- `left` hexadecimal digits are missing behind the next one. -/
  | inUnit (depth left : ℕ)

namespace Reader

def next : Reader → Char → Option Reader
  | between depth ended, c =>
      if isBlank c then some (between depth ended)
      else if depth = 0 then none
      else if c = ',' ∨ c = ':' then some (between depth false)
      else if c = ']' ∨ c = '\x7d' then some (between (depth - 1) false)
      else if ended then none
      else if c = '"' then some (inString depth)
      else if c = '[' ∨ c = '\x7b' then some (between (depth + 1) false)
      else some (between depth false)
  | inString depth, c =>
      if c = '"' then some (between depth true)
      else if c = '\\' then some (inEscape depth)
      else some (inString depth)
  | inEscape depth, c =>
      if c = 'u' then some (inUnit depth 3)
      else if c = '\x7b' then none
      else some (inString depth)
  | inUnit depth left, c =>
      if hexValue? c = none then none
      else if left = 0 then some (inString depth)
      else some (inUnit depth (left - 1))

-- The equations of `next` are made here, once for all the lemmas below.
attribute [local simp] next in
/-- From `a` the automaton reads what stands before `rest`, and is in `b` then. -/
def Reads (a : Reader) (cs : List Char) (b : Reader) (rest : List Char) : Prop :=
  ∃ used, cs = used ++ rest ∧ used.foldlM next a = some b

theorem Reads.refl (a : Reader) (cs : List Char) : Reads a cs a cs := ⟨[], rfl, rfl⟩

theorem Reads.trans {a b c : Reader} {cs ds rest : List Char} (h : Reads a cs b ds)
    (h' : Reads b ds c rest) : Reads a cs c rest := by
  obtain ⟨used, rfl, hused⟩ := h
  obtain ⟨used', rfl, hused'⟩ := h'
  refine ⟨used ++ used', (List.append_assoc _ _ _).symm, ?_⟩
  rw [List.foldlM_append, hused]
  exact hused'

theorem reads_cons {a b : Reader} {c : Char} (h : next a c = some b) (cs : List Char) :
    Reads a (c :: cs) b cs :=
  ⟨[c], rfl, by simp [h]⟩

/-! ## Blanks and strings -/

theorem next_blank {c : Char} (hc : isBlank c) (depth : ℕ) (ended : Bool) :
    next (between depth ended) c = some (between depth ended) := by simp [next, hc]

theorem next_quote (depth : ℕ) : next (inString depth) '"' = some (between depth true) := by
  simp [next]

theorem next_backslash (depth : ℕ) : next (inString depth) '\\' = some (inEscape depth) := by
  simp [next]

theorem next_unit (depth : ℕ) : next (inEscape depth) 'u' = some (inUnit depth 3) := by
  simp [next]

theorem next_escaped {c : Char} (hunit : c ≠ 'u') (hbrace : c ≠ '\x7b') (depth : ℕ) :
    next (inEscape depth) c = some (inString depth) := by simp [next, hunit, hbrace]

theorem next_close {c : Char} (hc : c = ']' ∨ c = '\x7d') (depth : ℕ) (ended : Bool) :
    next (between (depth + 1) ended) c = some (between depth false) := by
  rcases hc with rfl | rfl <;> simp [next, isBlank]

theorem next_open {c : Char} (hc : c = '[' ∨ c = '\x7b') (depth : ℕ) :
    next (between (depth + 1) false) c = some (between (depth + 2) false) := by
  rcases hc with rfl | rfl <;> simp [next, isBlank]

theorem next_open_quote (depth : ℕ) :
    next (between (depth + 1) false) '"' = some (inString (depth + 1)) := by
  simp [next, isBlank]

theorem next_separator {c : Char} (hc : c = ',' ∨ c = ':') (depth : ℕ) (ended : Bool) :
    next (between (depth + 1) ended) c = some (between (depth + 1) false) := by
  rcases hc with rfl | rfl <;> simp [next, isBlank]

theorem next_digit {c : Char} {n : ℕ} (hc : hexValue? c = some n) (depth left : ℕ) :
    next (inUnit depth (left + 1)) c = some (inUnit depth left) := by simp [next, hc]

theorem next_lastDigit {c : Char} {n : ℕ} (hc : hexValue? c = some n) (depth : ℕ) :
    next (inUnit depth 0) c = some (inString depth) := by simp [next, hc]

theorem reads_skipBlanks (depth : ℕ) (ended : Bool) (cs : List Char) :
    Reads (between depth ended) cs (between depth ended) (skipBlanks cs) := by
  induction cs with
  | nil => exact .refl _ _
  | cons c cs ih =>
      by_cases hc : isBlank c
      · rw [skipBlanks, List.dropWhile_cons_of_pos hc]
        exact (reads_cons (next_blank hc _ _) cs).trans ih
      · rw [skipBlanks, List.dropWhile_cons_of_neg hc]
        exact .refl _ _

theorem reads_scanUnit {depth n : ℕ} {cs rest : List Char} (h : scanUnit cs = some (n, rest)) :
    Reads (inUnit depth 3) cs (inString depth) rest := by
  unfold scanUnit at h
  split at h
  · simp only [Option.bind_eq_bind, Option.bind_eq_some_iff, Option.some.injEq,
      Prod.mk.injEq] at h
    obtain ⟨_, ha, _, hb, _, hc, _, hd, -, rfl⟩ := h
    exact (reads_cons (next_digit ha _ _) _).trans <| (reads_cons (next_digit hb _ _) _).trans <|
      (reads_cons (next_digit hc _ _) _).trans <| reads_cons (next_lastDigit hd _) _
  · cases h

theorem reads_scanLowSurrogate {depth high : ℕ} {c : Char} {cs rest : List Char}
    (h : scanLowSurrogate high cs = some (c, rest)) :
    Reads (inString depth) cs (inString depth) rest := by
  unfold scanLowSurrogate at h
  split at h
  · rename_i cs
    obtain ⟨⟨low, ds⟩, hunit, h⟩ := Option.bind_eq_some_iff.mp h
    simp only at h
    split at h
    · rw [Option.some.injEq, Prod.mk.injEq] at h
      obtain ⟨-, rfl⟩ := h
      exact (reads_cons (next_backslash _) _).trans <| (reads_cons (next_unit _) _).trans <|
        reads_scanUnit hunit
    · cases h
  · cases h

theorem reads_scanEscape {depth : ℕ} {c : Char} {cs rest : List Char}
    (h : scanEscape cs = some (c, rest)) : Reads (inEscape depth) cs (inString depth) rest := by
  unfold scanEscape at h
  split at h
  · obtain ⟨⟨unit, ds⟩, hunit, h⟩ := Option.bind_eq_some_iff.mp h
    refine (reads_cons (next_unit _) _).trans ((reads_scanUnit hunit).trans ?_)
    simp only at h
    split at h
    · exact reads_scanLowSurrogate h
    · split at h
      · cases h
      · cases h
        exact .refl _ _
  iterate 8
    · cases h
      exact reads_cons (next_escaped (by decide) (by decide) _) _
  · cases h

theorem reads_scanChar {depth : ℕ} {c : Option Char} {cs rest : List Char}
    (h : scanChar cs = some (c, rest)) :
    Reads (inString depth) cs (if c.isSome then inString depth else between depth true) rest := by
  unfold scanChar at h
  split at h
  · cases h
  · rename_i c' cs
    split_ifs at h with hquote hslash hlow
    · cases h
      exact reads_cons (hquote ▸ next_quote _) _
    · obtain ⟨⟨e, ds⟩, hescape, he⟩ := Option.map_eq_some_iff.mp h
      cases he
      exact (reads_cons (hslash ▸ next_backslash _) _).trans (reads_scanEscape hescape)
    · cases h
      exact reads_cons (by simp [next, hquote, hslash]) _

theorem reads_scanString {depth fuel : ℕ} {s cs rest : List Char}
    (h : scanString fuel cs = some (s, rest)) :
    Reads (inString depth) cs (between depth true) rest := by
  induction fuel generalizing s cs with
  | zero => cases h
  | succ fuel ih =>
      unfold scanString at h
      split at h
      · cases h
      · rename_i hchar
        cases h
        exact reads_scanChar hchar
      · rename_i hchar
        obtain ⟨p, hp, he⟩ := Option.map_eq_some_iff.mp h
        cases he
        exact (reads_scanChar hchar).trans (ih hp)

/-! ## Numbers -/

/-- A character that the automaton passes over between strings and brackets. -/
def plain (c : Char) : Bool :=
  !(isBlank c || c == ',' || c == ':' || c == ']' || c == '\x7d' || c == '"' || c == '[' ||
    c == '\x7b')

theorem next_plain {c : Char} (hc : plain c) (depth : ℕ) :
    next (between (depth + 1) false) c = some (between (depth + 1) false) := by
  simp only [plain, Bool.not_eq_true', Bool.or_eq_false_iff, beq_eq_false_iff_ne] at hc
  obtain ⟨⟨⟨⟨⟨⟨⟨hblank, h1⟩, h2⟩, h3⟩, h4⟩, h5⟩, h6⟩, h7⟩ := hc
  simp [next, hblank, h1, h2, h3, h4, h5, h6, h7]

/-- `rest` is behind plain characters of `cs`. -/
def Passes (cs rest : List Char) : Prop := ∃ used, cs = used ++ rest ∧ ∀ c ∈ used, plain c

theorem Passes.refl (cs : List Char) : Passes cs cs := ⟨[], rfl, List.forall_mem_nil _⟩

theorem Passes.trans {cs ds rest : List Char} (h : Passes cs ds) (h' : Passes ds rest) :
    Passes cs rest := by
  obtain ⟨used, rfl, hused⟩ := h
  obtain ⟨used', rfl, hused'⟩ := h'
  exact ⟨used ++ used', (List.append_assoc _ _ _).symm, List.forall_mem_append.mpr ⟨hused, hused'⟩⟩

theorem Passes.cons {c : Char} (hc : plain c) {cs rest : List Char} (h : Passes cs rest) :
    Passes (c :: cs) rest := by
  obtain ⟨used, rfl, hused⟩ := h
  exact ⟨c :: used, rfl, List.forall_mem_cons.mpr ⟨hc, hused⟩⟩

theorem Passes.reads {cs rest : List Char} (h : Passes cs rest) (depth : ℕ) :
    Reads (between (depth + 1) false) cs (between (depth + 1) false) rest := by
  obtain ⟨used, rfl, hused⟩ := h
  induction used with
  | nil => exact .refl _ _
  | cons c used ih =>
      exact (reads_cons (next_plain (hused c List.mem_cons_self) depth) _).trans
        (ih fun d hd => hused d (List.mem_cons_of_mem _ hd))

theorem plain_digit {c : Char} (hc : c.isDigit) : plain c := by
  simp only [Char.isDigit, Bool.and_eq_true, decide_eq_true_eq] at hc
  simp only [plain, isBlank, Bool.not_eq_true', Bool.or_eq_false_iff, beq_eq_false_iff_ne]
  refine ⟨⟨⟨⟨⟨⟨⟨⟨⟨⟨?_, ?_⟩, ?_⟩, ?_⟩, ?_⟩, ?_⟩, ?_⟩, ?_⟩, ?_⟩, ?_⟩, ?_⟩ <;>
    (rintro rfl; exact absurd hc (by decide))

theorem passes_digitsOf (cs : List Char) : Passes cs (digitsOf cs).2 :=
  ⟨cs.takeWhile Char.isDigit, (List.takeWhile_append_dropWhile (p := Char.isDigit)).symm,
    fun _ hc => plain_digit (List.mem_takeWhile_imp hc)⟩

theorem passes_scanFraction (cs : List Char) : Passes cs (scanFraction cs).2 := by
  unfold scanFraction
  split
  · rename_i cs
    split
    · exact .refl _
    · rename_i hdigits
      have := passes_digitsOf cs
      rw [hdigits] at this
      exact this.cons rfl
  · exact .refl _

theorem passes_scanSign (cs : List Char) : Passes cs (scanSign cs).2 := by
  unfold scanSign
  split
  · exact (Passes.refl _).cons rfl
  · exact (Passes.refl _).cons rfl
  · exact .refl _

theorem passes_scanExponent (cs : List Char) : Passes cs (scanExponent cs).2 := by
  unfold scanExponent
  split
  · rename_i c cs
    split
    · rename_i hc
      split
      · exact .refl _
      · rename_i hdigits
        have := (passes_scanSign cs).trans (passes_digitsOf _)
        rw [hdigits] at this
        refine this.cons ?_
        rcases hc with rfl | rfl <;> rfl
    · exact .refl _
  · exact .refl _

theorem passes_scanUnsigned {negative : Bool} {cs rest : List Char} {n : Number}
    (h : scanUnsigned negative cs = some (n, rest)) : Passes cs rest := by
  have hpasses := ((passes_digitsOf cs).trans (passes_scanFraction _)).trans
    (passes_scanExponent _)
  unfold scanUnsigned at h
  simp only at h
  split at h
  · split at h
    · cases h
      exact hpasses
    · cases h
  · obtain ⟨f, -, he⟩ := Option.map_eq_some_iff.mp h
    cases he
    exact hpasses

theorem passes_scanNumber {cs rest : List Char} {n : Number}
    (h : scanNumber cs = some (n, rest)) : Passes cs rest := by
  have hword : ∀ word : List Char, (∀ c ∈ word, plain c) → Passes (word ++ rest) rest :=
    fun word hword => ⟨word, rfl, hword⟩
  unfold scanNumber at h
  split at h
  · cases h
    exact hword ['N', 'a', 'N'] (by simp [plain, isBlank])
  · cases h
    exact hword ['I', 'n', 'f', 'i', 'n', 'i', 't', 'y'] (by simp [plain, isBlank])
  · cases h
    exact hword ['-', 'I', 'n', 'f', 'i', 'n', 'i', 't', 'y'] (by simp [plain, isBlank])
  · exact (passes_scanUnsigned h).cons rfl
  · exact passes_scanUnsigned h

/-! ## Values -/

/-- The three scanners read as the automaton does. -/
structure ScansRead (fuel : ℕ) : Prop where
  value : ∀ {cs v rest}, scanValue fuel cs = some (v, rest) →
    ∀ depth, ∃ ended, Reads (between (depth + 1) false) cs (between (depth + 1) ended) rest
  items : ∀ {cs vs rest}, scanItems fuel cs = some (vs, rest) →
    ∀ depth, Reads (between (depth + 1) false) cs (between depth false) rest
  fields : ∀ {acc cs fs rest}, scanFields fuel acc cs = some (fs, rest) →
    ∀ depth, Reads (between (depth + 1) false) cs (between depth false) rest

/-- A bracket is closed after blanks. -/
theorem reads_close {c : Char} (hc : c = ']' ∨ c = '\x7d') {cs rest : List Char}
    (h : skipBlanks cs = c :: rest) (depth : ℕ) (ended : Bool) :
    Reads (between (depth + 1) ended) cs (between depth false) rest := by
  have hblanks := reads_skipBlanks (depth + 1) ended cs
  rw [h] at hblanks
  exact hblanks.trans (reads_cons (next_close hc depth ended) rest)

/-- Another value follows after blanks, a separator and blanks. -/
theorem reads_separator {c : Char} (hc : c = ',' ∨ c = ':') {cs rest : List Char}
    (h : skipBlanks cs = c :: rest) (depth : ℕ) (ended : Bool) :
    Reads (between (depth + 1) ended) cs (between (depth + 1) false) (skipBlanks rest) := by
  have hblanks := reads_skipBlanks (depth + 1) ended cs
  rw [h] at hblanks
  exact (hblanks.trans (reads_cons (next_separator hc depth ended) rest)).trans
    (reads_skipBlanks _ _ _)

theorem reads_object {fuel : ℕ} (ih : ScansRead fuel) {cs rest : List Char} {v : Value}
    (h : scanValue (fuel + 1) ('\x7b' :: cs) = some (v, rest)) (depth : ℕ) :
    Reads (between (depth + 1) false) cs (between depth false) rest := by
  unfold scanValue at h
  simp only at h
  split at h
  · rename_i hclose
    cases h
    exact reads_close (.inr rfl) hclose depth false
  · obtain ⟨p, hscan, hp⟩ := Option.map_eq_some_iff.mp h
    cases hp
    exact (reads_skipBlanks _ _ _).trans (ih.fields hscan depth)

theorem scanValue_reads_succ {fuel : ℕ} (ih : ScansRead fuel) {cs rest : List Char} {v : Value}
    (h : scanValue (fuel + 1) cs = some (v, rest)) (depth : ℕ) :
    ∃ ended, Reads (between (depth + 1) false) cs (between (depth + 1) ended) rest := by
  have hobject := h
  unfold scanValue at h
  split at h
  · obtain ⟨p, hscan, hp⟩ := Option.map_eq_some_iff.mp h
    cases hp
    exact ⟨true, (reads_cons (next_open_quote _) _).trans (reads_scanString hscan)⟩
  · exact ⟨false, (reads_cons (next_open (.inr rfl) _) _).trans
      (reads_object ih hobject (depth + 1))⟩
  · split at h
    · rename_i hclose
      cases h
      exact ⟨false, (reads_cons (next_open (.inl rfl) _) _).trans
        (reads_close (.inl rfl) hclose (depth + 1) false)⟩
    · obtain ⟨p, hscan, hp⟩ := Option.map_eq_some_iff.mp h
      cases hp
      exact ⟨false, (reads_cons (next_open (.inl rfl) _) _).trans
        ((reads_skipBlanks _ _ _).trans (ih.items hscan (depth + 1)))⟩
  · cases h
    exact ⟨false, Passes.reads ⟨['n', 'u', 'l', 'l'], rfl, by simp [plain, isBlank]⟩ depth⟩
  · cases h
    exact ⟨false, Passes.reads ⟨['t', 'r', 'u', 'e'], rfl, by simp [plain, isBlank]⟩ depth⟩
  · cases h
    exact ⟨false, Passes.reads ⟨['f', 'a', 'l', 's', 'e'], rfl, by simp [plain, isBlank]⟩ depth⟩
  · obtain ⟨p, hscan, hp⟩ := Option.map_eq_some_iff.mp h
    cases hp
    exact ⟨false, (passes_scanNumber hscan).reads depth⟩

theorem scanItems_reads_succ {fuel : ℕ} (ih : ScansRead fuel) {cs rest : List Char}
    {vs : List Value} (h : scanItems (fuel + 1) cs = some (vs, rest)) (depth : ℕ) :
    Reads (between (depth + 1) false) cs (between depth false) rest := by
  unfold scanItems at h
  split at h
  · cases h
  · rename_i hscan
    obtain ⟨ended, hvalue⟩ := ih.value hscan depth
    split at h
    · rename_i hclose
      cases h
      exact hvalue.trans (reads_close (.inl rfl) hclose depth ended)
    · rename_i hcomma
      obtain ⟨p, hitems, hp⟩ := Option.map_eq_some_iff.mp h
      cases hp
      exact (hvalue.trans (reads_separator (.inl rfl) hcomma depth ended)).trans
        (ih.items hitems depth)
    · cases h

theorem scanFields_reads_succ {fuel : ℕ} (ih : ScansRead fuel) {cs rest : List Char}
    {acc fs : List (String × Value)} (h : scanFields (fuel + 1) acc cs = some (fs, rest))
    (depth : ℕ) : Reads (between (depth + 1) false) cs (between depth false) rest := by
  unfold scanFields at h
  split at h
  · split at h
    · cases h
    · rename_i hkey
      have hname := (reads_cons (next_open_quote depth) _).trans (reads_scanString hkey)
      split at h
      · rename_i hcolon
        split at h
        · cases h
        · rename_i hscan
          obtain ⟨ended, hvalue⟩ := ih.value hscan depth
          have hfield := (hname.trans (reads_separator (.inr rfl) hcolon depth true)).trans hvalue
          dsimp only at h
          split at h
          · rename_i hclose
            cases h
            exact hfield.trans (reads_close (.inr rfl) hclose depth ended)
          · rename_i hcomma
            exact (hfield.trans (reads_separator (.inl rfl) hcomma depth ended)).trans
              (ih.fields h depth)
          · cases h
      · cases h
  · cases h

theorem scansRead (fuel : ℕ) : ScansRead fuel := by
  induction fuel with
  | zero =>
      constructor
      · intro cs v rest h; unfold scanValue at h; cases h
      · intro cs vs rest h; unfold scanItems at h; cases h
      · intro acc cs fs rest h; unfold scanFields at h; cases h
  | succ fuel ih =>
      exact ⟨scanValue_reads_succ ih, scanItems_reads_succ ih, scanFields_reads_succ ih⟩

/-- The automaton passes over blanks. -/
theorem foldlM_blanks {cs : List Char} (h : skipBlanks cs = []) (depth : ℕ) (ended : Bool) :
    cs.foldlM next (between depth ended) = some (between depth ended) := by
  obtain ⟨used, hcs, hused⟩ := reads_skipBlanks depth ended cs
  rw [h, List.append_nil] at hcs
  rwa [hcs]

/-- An object's text, read behind its opening brace, leaves the automaton one level up. -/
theorem foldlM_of_parse {cs : List Char} {v : Value} (h : parse ('\x7b' :: cs) = some v)
    (depth : ℕ) : cs.foldlM next (between (depth + 1) false) = some (between depth false) := by
  unfold parse at h
  split at h
  · rename_i rest hscan
    split at h
    · rename_i hblank
      obtain ⟨used, hcs, hused⟩ := reads_object (scansRead _) hscan depth
      rw [hcs, List.foldlM_append, hused]
      exact foldlM_blanks hblank depth false
    · cases h
  · cases h

/-- The automaton does not get over an opening brace and the beginning of a key, unless it stands
where a value may stand. -/
theorem foldlM_brace {a : Reader} (ha : ∀ depth, a ≠ .between (depth + 1) false) {c : Char}
    (hc : plain c) (r : List Char) : ('\x7b' :: '"' :: c :: r).foldlM next a = none := by
  simp only [plain, Bool.not_eq_true', Bool.or_eq_false_iff, beq_eq_false_iff_ne] at hc
  obtain ⟨⟨⟨⟨⟨⟨⟨hblank, h1⟩, h2⟩, h3⟩, h4⟩, -⟩, -⟩, -⟩ := hc
  cases a with
  | between depth ended =>
      cases depth with
      | zero => simp [next, isBlank]
      | succ depth =>
          cases ended with
          | true => simp [next, isBlank]
          | false => exact absurd rfl (ha depth)
  | inString depth => cases depth <;> simp [next, hblank, h1, h2, h3, h4]
  | inEscape depth => simp [next]
  | inUnit depth left =>
      have hbrace : hexValue? '\x7b' = none := by decide
      simp [next, hbrace]

end Reader

/-- The beginning of an object's text, with a text of an object behind it that begins with a key,
is no text of a value. -/
theorem parse_torn {t p r : List Char} {c : Char} {v w : Value}
    (ht : parse ('\x7b' :: t) = some v) (hp : p <+: t)
    (hr : parse ('\x7b' :: '"' :: c :: r) = some w) (hc : Reader.plain c) :
    parse ('\x7b' :: (p ++ '\x7b' :: '"' :: c :: r)) = none := by
  have hwhole := Reader.foldlM_of_parse ht 0
  obtain ⟨q, rfl⟩ := hp
  rw [List.foldlM_append] at hwhole
  obtain ⟨a, ha, -⟩ := Option.bind_eq_some_iff.mp hwhole
  rw [Option.eq_none_iff_forall_ne_some]
  intro x hx
  have htorn := Reader.foldlM_of_parse hx 0
  rw [List.foldlM_append, ha] at htorn
  by_cases hopen : ∃ depth, a = .between (depth + 1) false
  · -- The second object is read whole, and the brackets of the first stay open.
    obtain ⟨depth, rfl⟩ := hopen
    have hsecond := Reader.foldlM_of_parse hr (depth + 1)
    have hopened := Reader.next_open (.inr rfl) depth
    change (List.foldlM Reader.next (.between (depth + 1) false) _) = _ at htorn
    rw [List.foldlM_cons, hopened] at htorn
    change (List.foldlM Reader.next (.between (depth + 2) false) _) = _ at htorn
    rw [hsecond] at htorn
    cases htorn
  · have hstuck := Reader.foldlM_brace (fun depth h => hopen ⟨depth, h⟩) hc r
    change (List.foldlM Reader.next a _) = _ at htorn
    rw [hstuck] at htorn
    cases htorn

/-- What follows the text of an object in a text of an object is blank. -/
theorem blank_of_parse_append {p q : List Char} {v w : Value}
    (hp : parse ('\x7b' :: p) = some v) (hpq : parse ('\x7b' :: (p ++ q)) = some w) :
    ∀ c ∈ q, isBlank c = true := by
  have hfront := Reader.foldlM_of_parse hp 0
  have hwhole := Reader.foldlM_of_parse hpq 0
  rw [List.foldlM_append, hfront] at hwhole
  replace hwhole : q.foldlM Reader.next (.between 0 false) = some (.between 0 false) := hwhole
  clear hp hpq hfront
  induction q with
  | nil => simp
  | cons c q ih =>
      rw [List.foldlM_cons] at hwhole
      obtain ⟨a, hnext, hrest⟩ := Option.bind_eq_some_iff.mp hwhole
      -- With every bracket closed the automaton reads blanks only.
      have hblank : isBlank c = true := by
        by_contra hc
        simp [Reader.next, hc] at hnext
      rw [Reader.next_blank hblank] at hnext
      cases hnext
      intro d hd
      rcases List.mem_cons.mp hd with rfl | hd
      · exact hblank
      · exact ih hrest d hd

/-- A part of the text of an object is no text of a value. -/
theorem parse_take_dumps {sep : Separators} (hsep : sep.Readable)
    {fields : List (String × Value)} (hkeys : (Value.obj fields).DistinctKeys) {n : ℕ}
    (hn : n < (dumps sep (.obj fields)).length) :
    parse ((dumps sep (.obj fields)).take n) = none := by
  have hwhole := parse_dumps hsep hkeys
  have hlast := dumps_obj_getLast? sep fields
  obtain ⟨cs, hcs⟩ := dumps_obj_head sep fields
  rw [hcs] at hwhole hlast hn ⊢
  cases n with
  | zero => rfl
  | succ n =>
      rw [List.take_succ_cons, Option.eq_none_iff_forall_ne_some]
      intro v hv
      rw [← List.take_append_drop n cs] at hwhole
      have hblank := blank_of_parse_append hv hwhole
      have hdrop : cs.drop n ≠ [] := by
        rw [List.length_cons] at hn
        exact List.drop_eq_nil_iff.not.mpr (by omega)
      rw [← List.take_append_drop n cs, ← List.cons_append, List.getLast?_append_of_ne_nil _ hdrop]
        at hlast
      have hclose := hblank _ (List.mem_of_getLast? hlast)
      revert hclose
      decide

end Json

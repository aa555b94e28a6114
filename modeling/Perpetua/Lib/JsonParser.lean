import Perpetua.Lib.Json

/-!
# `json.loads`

The decoder of Python's `json` module, on the characters of a text. Every recursive call leaves at
least one character behind, so the length of the text is fuel enough. A lone surrogate escape is no
character, and refused.
-/

namespace Json

/-! ## Strings -/

def hexValue? (c : Char) : Option ℕ :=
  if c.isDigit then some (c.toNat - 0x30)
  else if 'a' ≤ c ∧ c ≤ 'f' then some (c.toNat - 0x57)
  else if 'A' ≤ c ∧ c ≤ 'F' then some (c.toNat - 0x37)
  else none

/-- The four hexadecimal digits after `\u`. -/
def scanUnit : List Char → Option (ℕ × List Char)
  | a :: b :: c :: d :: cs => do
      let a ← hexValue? a
      let b ← hexValue? b
      let c ← hexValue? c
      let d ← hexValue? d
      some (((a * 16 + b) * 16 + c) * 16 + d, cs)
  | _ => none

/-- The unit after a high surrogate. -/
def scanLowSurrogate (high : ℕ) : List Char → Option (Char × List Char)
  | '\\' :: 'u' :: cs => do
      let (low, cs) ← scanUnit cs
      if 0xDC00 ≤ low ∧ low ≤ 0xDFFF then
        some (Char.ofNat (0x10000 + (high - 0xD800) * 0x400 + (low - 0xDC00)), cs)
      else none
  | _ => none

/-- The escape sequence after a backslash. -/
def scanEscape : List Char → Option (Char × List Char)
  | 'u' :: cs => do
      let (unit, cs) ← scanUnit cs
      if 0xD800 ≤ unit ∧ unit ≤ 0xDBFF then scanLowSurrogate unit cs
      else if 0xDC00 ≤ unit ∧ unit ≤ 0xDFFF then none
      else some (Char.ofNat unit, cs)
  | '"' :: cs => some ('"', cs)
  | '\\' :: cs => some ('\\', cs)
  | '/' :: cs => some ('/', cs)
  | 'b' :: cs => some ('\x08', cs)
  | 'f' :: cs => some ('\x0c', cs)
  | 'n' :: cs => some ('\n', cs)
  | 'r' :: cs => some ('\r', cs)
  | 't' :: cs => some ('\t', cs)
  | _ => none

/-- The next character of a string, or `none` for its closing quote. -/
def scanChar : List Char → Option (Option Char × List Char)
  | [] => none
  | c :: cs =>
      if c = '"' then some (none, cs)
      else if c = '\\' then (scanEscape cs).map fun p => (some p.1, p.2)
      else if c.toNat < 0x20 then none
      else some (some c, cs)

/-- The characters up to the closing quote. -/
def scanString : ℕ → List Char → Option (List Char × List Char)
  | 0, _ => none
  | fuel + 1, cs =>
      match scanChar cs with
      | none => none
      | some (none, cs) => some ([], cs)
      | some (some c, cs) => (scanString fuel cs).map fun p => (c :: p.1, p.2)

/-! ## Numbers -/

/-- Character by character: the library also has an instance that tries every character. -/
instance (priority := high) allDigitsDecidable (cs : List Char) :
    Decidable (∀ c ∈ cs, c.isDigit) :=
  List.decidableBAll _ cs

/-- The parts of a decimal literal, if they are one. -/
def FloatLit.ofParts? (negative : Bool) (whole fraction : List Char)
    (exponent : Option (Option Bool × List Char)) : Option FloatLit :=
  if h : (∀ c ∈ whole, c.isDigit) ∧ (whole = ['0'] ∨ whole ≠ [] ∧ whole.head? ≠ some '0') ∧
      (∀ c ∈ fraction, c.isDigit) ∧ (∀ e ∈ exponent, e.2 ≠ [] ∧ ∀ c ∈ e.2, c.isDigit) ∧
      (fraction ≠ [] ∨ exponent.isSome) then
    some ⟨negative, whole, fraction, exponent, h.1, h.2.1, h.2.2.1, h.2.2.2.1, h.2.2.2.2⟩
  else none

def digitsOf (cs : List Char) : List Char × List Char :=
  (cs.takeWhile Char.isDigit, cs.dropWhile Char.isDigit)

/-- A fraction needs a digit; otherwise the literal ends before the point. -/
def scanFraction : List Char → List Char × List Char
  | '.' :: cs => match digitsOf cs with
      | ([], _) => ([], '.' :: cs)
      | (ds, rest) => (ds, rest)
  | cs => ([], cs)

def scanSign : List Char → Option Bool × List Char
  | '-' :: cs => (some true, cs)
  | '+' :: cs => (some false, cs)
  | cs => (none, cs)

/-- An exponent needs a digit; otherwise the literal ends before it. -/
def scanExponent : List Char → Option (Option Bool × List Char) × List Char
  | c :: cs =>
      if c = 'e' ∨ c = 'E' then
        match digitsOf (scanSign cs).2 with
        | ([], _) => (none, c :: cs)
        | (ds, rest) => (some ((scanSign cs).1, ds), rest)
      else (none, c :: cs)
  | [] => (none, [])

def scanUnsigned (negative : Bool) (cs : List Char) : Option (Number × List Char) :=
  let (whole, cs) := digitsOf cs
  let (fraction, cs) := scanFraction cs
  let (exponent, cs) := scanExponent cs
  if fraction = [] ∧ exponent = none then
    if whole = ['0'] ∨ whole ≠ [] ∧ whole.head? ≠ some '0' then
      let n : ℤ := Nat.ofDigitChars 10 whole 0
      some (.int (if negative then -n else n), cs)
    else none
  else (FloatLit.ofParts? negative whole fraction exponent).map fun f => (.float f, cs)

/-- `none` for a text that is no number; a leading zero is refused with what follows it. -/
def scanNumber : List Char → Option (Number × List Char)
  | 'N' :: 'a' :: 'N' :: cs => some (.nan, cs)
  | 'I' :: 'n' :: 'f' :: 'i' :: 'n' :: 'i' :: 't' :: 'y' :: cs => some (.infinity, cs)
  | '-' :: 'I' :: 'n' :: 'f' :: 'i' :: 'n' :: 'i' :: 't' :: 'y' :: cs => some (.negInfinity, cs)
  | '-' :: cs => scanUnsigned true cs
  | cs => scanUnsigned false cs

/-! ## Values -/

def isBlank (c : Char) : Bool := c == ' ' || c == '\t' || c == '\n' || c == '\r'

def skipBlanks (cs : List Char) : List Char := cs.dropWhile isBlank

mutual

/-- `scan_once`. -/
def scanValue : ℕ → List Char → Option (Value × List Char)
  | 0, _ => none
  | fuel + 1, cs =>
      match cs with
      | '"' :: cs => (scanString fuel cs).map fun p => (.str (.ofList p.1), p.2)
      | '\x7b' :: cs =>
          match skipBlanks cs with
          | '\x7d' :: cs => some (.obj [], cs)
          | cs => (scanFields fuel [] cs).map fun p => (.obj p.1, p.2)
      | '[' :: cs =>
          match skipBlanks cs with
          | ']' :: cs => some (.arr [], cs)
          | cs => (scanItems fuel cs).map fun p => (.arr p.1, p.2)
      | 'n' :: 'u' :: 'l' :: 'l' :: cs => some (.null, cs)
      | 't' :: 'r' :: 'u' :: 'e' :: cs => some (.bool true, cs)
      | 'f' :: 'a' :: 'l' :: 's' :: 'e' :: cs => some (.bool false, cs)
      | cs => (scanNumber cs).map fun p => (.num p.1, p.2)

/-- An item, and the items after it up to the closing bracket. -/
def scanItems : ℕ → List Char → Option (List Value × List Char)
  | 0, _ => none
  | fuel + 1, cs =>
      match scanValue fuel cs with
      | none => none
      | some (v, cs) =>
          match skipBlanks cs with
          | ']' :: cs => some ([v], cs)
          | ',' :: cs => (scanItems fuel (skipBlanks cs)).map fun p => (v :: p.1, p.2)
          | _ => none

/-- A field, and the fields after it up to the closing brace; a repeated key keeps its last value. -/
def scanFields : ℕ → List (String × Value) → List Char → Option (List (String × Value) × List Char)
  | 0, _, _ => none
  | fuel + 1, fields, cs =>
      match cs with
      | '"' :: cs =>
          match scanString fuel cs with
          | none => none
          | some (key, cs) =>
              match skipBlanks cs with
              | ':' :: cs =>
                  match scanValue fuel (skipBlanks cs) with
                  | none => none
                  | some (v, cs) =>
                      let fields := Entries.set fields (.ofList key) v
                      match skipBlanks cs with
                      | '\x7d' :: cs => some (fields, cs)
                      | ',' :: cs => scanFields fuel fields (skipBlanks cs)
                      | _ => none
              | _ => none
      | _ => none

end

-- The equations are made here, once for all the proofs that unfold the scanner.
attribute [local simp] scanValue scanItems scanFields scanNumber dumps dumpsItems dumpsFields

/-- One value, and nothing after it but blanks; the literals of floats are kept as they stand. -/
def parse (cs : List Char) : Option Value :=
  match scanValue (cs.length + 1) (skipBlanks cs) with
  | some (v, rest) => if skipBlanks rest = [] then some v else none
  | none => none

/-! ## Floats -/

/-- `float` of a literal; a finite float is the literal that `repr` writes for it. -/
class FloatReader where
  read : FloatLit → Number

section Floats

variable [FloatReader]

def Number.read : Number → Number
  | .float f => FloatReader.read f
  | n => n

mutual

/-- The value with its literals read as floats. -/
def Value.read : Value → Value
  | .num n => .num n.read
  | .arr items => .arr (readItems items)
  | .obj fields => .obj (readFields fields)
  | .null => .null
  | .bool b => .bool b
  | .str s => .str s

def readItems : List Value → List Value
  | [] => []
  | v :: vs => v.read :: readItems vs

def readFields : List (String × Value) → List (String × Value)
  | [] => []
  | (k, v) :: fs => (k, v.read) :: readFields fs

end

/-- `json.loads`. -/
def loads (cs : List Char) : Option Value := (parse cs).map Value.read

end Floats

end Json

import Mathlib.Algebra.Field.Rat
import Perpetua.Lib.OrderedDict

/-!
# JSON values and `json.dumps`

The values of Python's `json` module. An object keeps the order of its keys. A finite float is its
literal, as `repr` writes it, so that the text and the value are both at hand. Text is a list of
characters; `ensure_ascii` escapes all that is not printable ASCII.
-/

namespace Json

/-! ## Values -/

/-- A decimal literal with a fraction or an exponent. -/
structure FloatLit where
  negative : Bool
  whole : List Char
  fraction : List Char
  /-- The sign, if written, and the digits. -/
  exponent : Option (Option Bool × List Char)
  whole_digits : ∀ c ∈ whole, c.isDigit
  whole_form : whole = ['0'] ∨ whole ≠ [] ∧ whole.head? ≠ some '0'
  fraction_digits : ∀ c ∈ fraction, c.isDigit
  exponent_digits : ∀ e ∈ exponent, e.2 ≠ [] ∧ ∀ c ∈ e.2, c.isDigit
  float : fraction ≠ [] ∨ exponent.isSome
  deriving DecidableEq

/-- A Python `int` or `float`. -/
inductive Number
  | int (n : ℤ)
  | float (lit : FloatLit)
  | nan
  | infinity
  | negInfinity
  deriving DecidableEq

inductive Value
  | null
  | bool (b : Bool)
  | num (n : Number)
  | str (s : String)
  | arr (items : List Value)
  | obj (fields : List (String × Value))

namespace FloatLit

/-- The exponent of ten that the literal writes. -/
def scale (f : FloatLit) : ℤ :=
  match f.exponent with
  | none => 0
  | some (sign, ds) =>
      let n : ℤ := Nat.ofDigitChars 10 ds 0
      if sign = some true then -n else n

/-- The rational that the literal stands for. -/
def val (f : FloatLit) : ℚ :=
  let digits : ℚ := Nat.ofDigitChars 10 (f.whole ++ f.fraction) 0
  let v := digits * 10 ^ (f.scale - f.fraction.length)
  if f.negative then -v else v

end FloatLit

/-- The value of a finite number. -/
def Number.val? : Number → Option ℚ
  | .int n => some n
  | .float f => some f.val
  | _ => none

/-- The text, when the value is a string. -/
def Value.str? : Value → Option String
  | .str s => some s
  | _ => none

/-- `bool` of a value. -/
def Value.truthy : Value → Bool
  | .null => false
  | .bool b => b
  | .num n => n.val? ≠ some 0
  | .str s => s ≠ ""
  | .arr items => !items.isEmpty
  | .obj fields => !fields.isEmpty

/-- `value == n`; a truth value counts as zero or one. -/
def Value.equalsInt : Value → ℤ → Bool
  | .bool b, n => n = if b then 1 else 0
  | .num m, n => m.val? = some (n : ℚ)
  | _, _ => false

/-! ## Writing -/

def hexDigit (n : ℕ) : Char := Nat.digitChar (n % 16)

/-- `\uXXXX`. -/
def escapeUnit (n : ℕ) : List Char :=
  ['\\', 'u', hexDigit (n / 4096), hexDigit (n / 256), hexDigit (n / 16), hexDigit n]

/-- One character between the quotes; beyond the basic plane as a surrogate pair. -/
def escapeChar (c : Char) : List Char :=
  if c = '"' then ['\\', '"']
  else if c = '\\' then ['\\', '\\']
  else if c = '\n' then ['\\', 'n']
  else if c = '\r' then ['\\', 'r']
  else if c = '\t' then ['\\', 't']
  else if c.toNat = 0x0C then ['\\', 'f']
  else if c.toNat = 0x08 then ['\\', 'b']
  else if 0x20 ≤ c.toNat ∧ c.toNat ≤ 0x7E then [c]
  else if c.toNat < 0x10000 then escapeUnit c.toNat
  else
    escapeUnit (0xD800 + (c.toNat - 0x10000) / 0x400) ++
      escapeUnit (0xDC00 + (c.toNat - 0x10000) % 0x400)

def escapeString (s : String) : List Char := '"' :: s.toList.flatMap escapeChar ++ ['"']

def exponentText : Option (Option Bool × List Char) → List Char
  | none => []
  | some (none, ds) => 'e' :: ds
  | some (some true, ds) => 'e' :: '-' :: ds
  | some (some false, ds) => 'e' :: '+' :: ds

def fractionText : List Char → List Char
  | [] => []
  | ds => '.' :: ds

def FloatLit.text (f : FloatLit) : List Char :=
  (if f.negative then ['-'] else []) ++ f.whole ++ fractionText f.fraction ++ exponentText f.exponent

def intText (n : ℤ) : List Char :=
  if n < 0 then '-' :: Nat.toDigits 10 n.natAbs else Nat.toDigits 10 n.natAbs

def Number.text : Number → List Char
  | .int n => intText n
  | .float f => f.text
  | .nan => "NaN".toList
  | .infinity => "Infinity".toList
  | .negInfinity => "-Infinity".toList

/-- The `separators` of `json.dumps`. -/
structure Separators where
  item : List Char
  key : List Char

/-- The default separators. -/
def spaced : Separators := ⟨[',', ' '], [':', ' ']⟩

/-- `separators=(",", ":")`. -/
def compact : Separators := ⟨[','], [':']⟩

mutual

/-- `json.dumps`. -/
def dumps (sep : Separators) : Value → List Char
  | .null => "null".toList
  | .bool true => "true".toList
  | .bool false => "false".toList
  | .num n => n.text
  | .str s => escapeString s
  | .arr [] => "[]".toList
  | .arr (v :: vs) => '[' :: dumps sep v ++ dumpsItems sep vs
  | .obj [] => "{}".toList
  | .obj ((k, v) :: fs) => '\x7b' :: escapeString k ++ sep.key ++ dumps sep v ++ dumpsFields sep fs

/-- The items after the first, and the closing bracket. -/
def dumpsItems (sep : Separators) : List Value → List Char
  | [] => [']']
  | v :: vs => sep.item ++ dumps sep v ++ dumpsItems sep vs

/-- The fields after the first, and the closing brace. -/
def dumpsFields (sep : Separators) : List (String × Value) → List Char
  | [] => ['\x7d']
  | (k, v) :: fs => sep.item ++ escapeString k ++ sep.key ++ dumps sep v ++ dumpsFields sep fs

end

/-- Insert a field in the order of the keys. -/
def insertField (k : String) (v : Value) : List (String × Value) → List (String × Value)
  | [] => [(k, v)]
  | (k', v') :: fs => if k ≤ k' then (k, v) :: (k', v') :: fs else (k', v') :: insertField k v fs

mutual

/-- `sort_keys=True`. -/
def sortKeys : Value → Value
  | .arr vs => .arr (sortKeysItems vs)
  | .obj fs => .obj (sortKeysFields fs)
  | .null => .null
  | .bool b => .bool b
  | .num n => .num n
  | .str s => .str s

def sortKeysItems : List Value → List Value
  | [] => []
  | v :: vs => sortKeys v :: sortKeysItems vs

def sortKeysFields : List (String × Value) → List (String × Value)
  | [] => []
  | (k, v) :: fs => insertField k (sortKeys v) (sortKeysFields fs)

end

example :
    String.ofList (dumps spaced (sortKeys (.obj
      [("n", .num (.int (-12))), ("a", .arr [.str "x\n", .null]), ("b", .obj [])]))) =
      "\x7b\"a\": [\"x\\n\", null], \"b\": \x7b\x7d, \"n\": -12\x7d" := by decide

end Json

import Mathlib.Algebra.Order.Floor.Defs
import Mathlib.Data.Rat.Floor
import Perpetua.Lib.PyText

/-!
# Python numbers

Floating-point values are modelled by the rationals they stand for.
-/

namespace PyNumber

/-- `round(q)`: to the nearest integer, a tie to the even one. -/
def roundHalfEven (q : ℚ) : ℤ :=
  let f := ⌊q⌋
  if q - f < 1 / 2 then f
  else if 1 / 2 < q - f then f + 1
  else if f % 2 = 0 then f else f + 1

example : [(1 / 2 : ℚ), 3 / 2, 5 / 2, -1 / 2].map roundHalfEven = [0, 2, 2, 0] := by decide +kernel

/-- `int(q)`: the fraction is dropped. -/
def truncate (q : ℚ) : ℤ := q.num.tdiv q.den

/-- The most digits that `int` reads. -/
def maxDigits : ℕ := 4300

/-- The digits of a numeral; single underscores may stand between them. -/
def digitsOf (digit : Char → Option ℕ) (cs : List Char) : Option (List ℕ) :=
  let groups := cs.splitOn '_'
  if [] ∈ groups then none else groups.flatten.mapM digit

/-- `int(s)` of a text, where `digit` is the value of a decimal digit. -/
def intOfText (digit : Char → Option ℕ) (s : String) : Option ℤ :=
  let (negative, numeral) :=
    match (PyText.strip s).toList with
    | '-' :: cs => (true, cs)
    | '+' :: cs => (false, cs)
    | cs => (false, cs)
  match digitsOf digit numeral with
  | none => none
  | some ds =>
      if maxDigits < ds.length then none
      else
        let n : ℤ := ds.foldl (fun n d => 10 * n + d) 0
        some (if negative then -n else n)

example :
    [" -1_024\n", "1__0", "", "+7"].map
        (intOfText fun c => if c.isDigit then some (c.toNat - 48) else none) =
      [some (-1024), none, none, some 7] := by decide +kernel

/-- A sign, an underscore or a blank in a numeral. -/
def Mark (c : Char) : Prop := c = '+' ∨ c = '-' ∨ c = '_' ∨ PyText.isSpace c

end PyNumber

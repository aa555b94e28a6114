import Perpetua.Lib.JsonObjects
import Perpetua.Lib.JsonTorn
import Perpetua.Lib.PyLines

/-!
# Records on lines

Objects that are written as lines of JSON. A line that was cut short is no value, and with another
record behind it it is none either.
-/

namespace PyText

theorem isLineBoundary_printable {c : Char} (hc : Json.printable c) : isLineBoundary c = false := by
  simp only [Json.printable, Bool.and_eq_true, decide_eq_true_eq] at hc
  simp only [isLineBoundary, Bool.or_eq_false_iff, Bool.and_eq_false_iff, decide_eq_false_iff_not,
    beq_eq_false_iff_ne]
  omega

end PyText

namespace Json

variable [FloatReader]

/-- An object as the decoder builds it, whose first key begins with a character that is written as it
stands and opens or closes nothing. -/
structure Record where
  fields : List (String × Value)
  distinct : Distinct fields
  readable : ∀ e ∈ fields, e.2.read = e.2
  first : ∃ c cs v rest, fields = (.ofList (c :: cs), v) :: rest ∧ escapeChar c = [c] ∧ Reader.plain c

namespace Record

variable {sep : Separators}

def text (sep : Separators) (r : Record) : List Char := dumps sep (.obj r.fields)

def line (sep : Separators) (r : Record) : List Char := r.text sep ++ ['\n']

theorem parse_text (hsep : sep.Readable) (r : Record) : parse (r.text sep) = some (.obj r.fields) :=
  parse_dumps hsep (.obj r.distinct.keys r.distinct.values)

theorem loads_text (hsep : sep.Readable) (r : Record) : loads (r.text sep) = some (.obj r.fields) := by
  have hread : r.fields.map (fun e => (e.1, e.2.read)) = r.fields := by
    refine (List.map_congr_left fun e he => ?_).trans (List.map_id _)
    rw [r.readable e he]
    rfl
  rw [loads, r.parse_text hsep, Option.map_some, Value.read, readFields_eq_map, hread]

theorem printable_text (hitem : sep.item.all printable) (hkey : sep.key.all printable) (r : Record) :
    (r.text sep).all printable :=
  printable_dumps hitem hkey (.obj r.distinct.keys r.distinct.values)

theorem text_eq (sep : Separators) (r : Record) :
    ∃ c cs, r.text sep = '\x7b' :: '"' :: c :: cs ∧ Reader.plain c := by
  obtain ⟨c, cs, v, rest, hfields, hescape, hplain⟩ := r.first
  rw [text, hfields, dumps]
  cases rest with
  | nil =>
      rw [dumpsFields, escapeString, String.toList_ofList, List.flatMap_cons, hescape]
      exact ⟨c, _, rfl, hplain⟩
  | cons e rest =>
      rw [dumpsFields, escapeString, String.toList_ofList, List.flatMap_cons, hescape]
      exact ⟨c, _, rfl, hplain⟩

/-- A line that was cut short is no value. -/
theorem loads_take (hsep : sep.Readable) (r : Record) {k : ℕ} (hk : k < (r.text sep).length) :
    loads ((r.text sep).take k) = none := by
  rw [loads, text, parse_take_dumps hsep (.obj r.distinct.keys r.distinct.values) hk]
  rfl

/-- With another record behind it, it is no value either. -/
theorem loads_take_append (hsep : sep.Readable) (r r' : Record) {k : ℕ} (hk : k ≠ 0) :
    loads ((r.text sep).take k ++ r'.text sep) = none := by
  obtain ⟨c, cs, htext, -⟩ := r.text_eq sep
  obtain ⟨c', cs', htext', hplain⟩ := r'.text_eq sep
  obtain ⟨n, rfl⟩ := Nat.exists_eq_succ_of_ne_zero hk
  rw [loads, htext, htext', List.take_succ_cons, List.cons_append,
    parse_torn (htext ▸ r.parse_text hsep) (List.take_prefix n _) (htext' ▸ r'.parse_text hsep) hplain]
  rfl

end Record

end Json

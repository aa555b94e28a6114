import Perpetua.Lib.Json
import Perpetua.Lib.OrderedDict

/-!
# Strict readings of JSON values

Readers of typed data: a value is read only from the JSON type of its field, and an object with a
field that is not asked for is refused.
-/

namespace StrictJson

open Json (Value)

variable {α : Type*}

abbrev Reader (α : Type*) := Value → Option α

/-! ## Scalars and lists -/

def str : Reader String := Value.str?

def bool : Reader Bool
  | .bool b => some b
  | _ => none

def int : Reader ℤ
  | .num (.int n) => some n
  | _ => none

/-- A number, with a fraction or without. -/
def number : Reader Json.Number
  | .num n => some n
  | _ => none

/-- Only what passes the check. -/
def Reader.when (read : Reader α) (check : α → Bool) : Reader α := fun v => (read v).filter check

/-- One of the values, by its name. -/
def oneOf (values : List (String × α)) : Reader α := fun v => (str v).bind (Entries.get? values)

/-- A text that is one of these. -/
abbrev Literal (names : List String) := { s : String // s ∈ names }

def literalOf (names : List String) : Reader (Literal names) := fun v =>
  (str v).bind fun s => if h : s ∈ names then some ⟨s, h⟩ else none

/-- `null`, or a value. -/
def nullable (read : Reader α) : Reader (Option α)
  | .null => some none
  | v => (read v).map some

def list (read : Reader α) : Reader (List α)
  | .arr items => items.mapM read
  | _ => none

/-- A text of at least this length. -/
def minLength (n : ℕ) : Reader String := Reader.when str fun s => n ≤ s.toList.length

/-- A list with at least this many items. -/
def minItems (n : ℕ) (read : Reader α) : Reader (List α) := Reader.when (list read) fun l => n ≤ l.length

/-! ## Objects -/

abbrev Fields := List (String × Value)

/-- An object with no fields but these. -/
def object (names : List String) : Reader Fields
  | .obj fields => if ∀ kv ∈ fields, kv.1 ∈ names then some fields else none
  | _ => none

/-- A field that has to be there. -/
def required (fields : Fields) (name : String) (read : Reader α) : Option α :=
  (Entries.get? fields name).bind read

/-- A field with a default. -/
def optional (fields : Fields) (name : String) (default : α) (read : Reader α) : Option α :=
  (Entries.get? fields name).elim (some default) read

/-- A field that may be `null` or missing. -/
def orNull (fields : Fields) (name : String) (read : Reader α) : Option (Option α) :=
  optional fields name none (nullable read)

/-- The value behind a path of field names. -/
def at? : Value → List String → Option Value
  | v, [] => some v
  | .obj fields, name :: path => (Entries.get? fields name).bind fun v => at? v path
  | _, _ :: _ => none

/-! ## What readers read -/

theorem str_eq_some {v : Value} {s : String} : str v = some s ↔ v = .str s := by
  cases v <;> simp [str, Value.str?]

theorem Reader.when_eq_some {read : Reader α} {check : α → Bool} {v : Value} {a : α} :
    Reader.when read check v = some a ↔ read v = some a ∧ check a = true := Option.filter_eq_some_iff

theorem minLength_eq_some {n : ℕ} {v : Value} {s : String} :
    minLength n v = some s ↔ v = .str s ∧ n ≤ s.toList.length := by
  rw [minLength, Reader.when_eq_some, str_eq_some, decide_eq_true_iff]

theorem object_eq_some {names : List String} {v : Value} {fields : Fields}
    (h : object names v = some fields) : v = .obj fields := by
  cases v with
  | obj fields' =>
      rw [object, Option.ite_none_right_eq_some] at h
      rw [Option.some.inj h.2]
  | _ => cases h

theorem required_eq_some {fields : Fields} {name : String} {read : Reader α} {a : α} :
    required fields name read = some a ↔ ∃ v, Entries.get? fields name = some v ∧ read v = some a :=
  Option.bind_eq_some_iff

/-- A field that is read as something is there. -/
theorem orNull_eq_some {fields : Fields} {name : String} {read : Reader α} {a : α} :
    orNull fields name read = some (some a) ↔
      ∃ v, Entries.get? fields name = some v ∧ v ≠ .null ∧ read v = some a := by
  rw [orNull, optional]
  cases Entries.get? fields name with
  | none => simp
  | some v => cases v <;> simp [nullable]

/-- A field that is read as nothing is missing or `null`. -/
theorem orNull_eq_none {fields : Fields} {name : String} {read : Reader α} :
    orNull fields name read = some none ↔
      ∀ v, Entries.get? fields name = some v → v = .null := by
  rw [orNull, optional]
  cases Entries.get? fields name with
  | none => simp
  | some v => cases v <;> simp [nullable]

/-- A path through an object that was read. -/
theorem at?_object {names : List String} {v : Value} {fields : Fields} (h : object names v = some fields)
    (name : String) (path : List String) :
    at? v (name :: path) = (Entries.get? fields name).bind fun v => at? v path := by
  rw [object_eq_some h, at?]

/-- A path through a field that has to be there. -/
theorem at?_required {names : List String} {v : Value} {fields : Fields} (h : object names v = some fields)
    {name : String} {read : Reader α} {a : α} (hread : required fields name read = some a) :
    ∃ v', read v' = some a ∧ ∀ path, at? v (name :: path) = at? v' path := by
  obtain ⟨v', hget, hread⟩ := required_eq_some.mp hread
  refine ⟨v', hread, fun path => ?_⟩
  rw [at?_object h, hget, Option.bind_some]

/-- A path through a field that may be `null` and is not. -/
theorem at?_orNull {names : List String} {v : Value} {fields : Fields} (h : object names v = some fields)
    {name : String} {read : Reader α} {a : α} (hread : orNull fields name read = some (some a)) :
    ∃ v', read v' = some a ∧ ∀ path, at? v (name :: path) = at? v' path := by
  obtain ⟨v', hget, -, hread⟩ := orNull_eq_some.mp hread
  refine ⟨v', hread, fun path => ?_⟩
  rw [at?_object h, hget, Option.bind_some]

/-- No text is behind a field that is missing or `null`. -/
theorem at?_orNull_none {names : List String} {v : Value} {fields : Fields}
    (h : object names v = some fields) {name : String} {read : Reader α}
    (hread : orNull fields name read = some none) (path : List String) (s : String) :
    at? v (name :: path) ≠ some (.str s) := by
  rw [at?_object h]
  have hnone := orNull_eq_none.mp hread
  cases hget : Entries.get? fields name with
  | none => nofun
  | some v' =>
      rw [hnone v' hget]
      cases path <;> nofun

end StrictJson

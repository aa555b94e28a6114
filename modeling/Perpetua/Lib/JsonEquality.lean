import Perpetua.Lib.JsonObjects

/-!
# Python's equality of JSON values

`==` on what `json.loads` gives: numbers are compared by value, a bool as a number, and objects
without regard to the order of their keys.
-/

namespace Json

/-! ## Equality -/

/-- `==` of numbers; `nan` is not equal to itself. -/
def Number.eq : Number → Number → Bool
  | .infinity, .infinity => true
  | .negInfinity, .negInfinity => true
  | m, n =>
      match m.val?, n.val? with
      | some p, some q => p = q
      | _, _ => false

/-- `<` of numbers. -/
def Number.lt : Number → Number → Bool
  | .nan, _ | _, .nan => false
  | .infinity, _ | _, .negInfinity => false
  | .negInfinity, _ | _, .infinity => true
  | m, n =>
      match m.val?, n.val? with
      | some p, some q => p < q
      | _, _ => false

/-- The number that a value counts as. -/
def Value.number? : Value → Option Number
  | .bool b => some (.int (if b then 1 else 0))
  | .num n => some n
  | _ => none

mutual

/-- `==`. -/
def Value.eq : Value → Value → Bool
  | .null, .null => true
  | .str s, .str t => s = t
  | .arr vs, .arr ws => eqItems vs ws
  | .obj fs, .obj gs => fs.length = gs.length && eqFields fs gs
  | .bool b, w => w.number?.any (Number.eq (.int (if b then 1 else 0)))
  | .num n, w => w.number?.any n.eq
  | _, _ => false

def eqItems : List Value → List Value → Bool
  | [], [] => true
  | v :: vs, w :: ws => v.eq w && eqItems vs ws
  | _, _ => false

/-- Every field has an equal value in the other object. -/
def eqFields : List (String × Value) → List (String × Value) → Bool
  | [], _ => true
  | (k, v) :: fs, gs =>
      match Entries.get? gs k with
      | some w => v.eq w && eqFields fs gs
      | none => false

end

/-! ## Keys of a `dict` -/

/-- What a `dict` looks a value up by: numbers by their value, a bool as a number. -/
inductive Key
  | null
  | text (s : String)
  | number (q : ℚ)
  | nan
  | infinity
  | negInfinity
  deriving DecidableEq

def Number.key : Number → Key
  | .nan => .nan
  | .infinity => .infinity
  | .negInfinity => .negInfinity
  | .int n => .number n
  | .float f => .number f.val

/-- A list or an object is not hashable. -/
def Value.key? : Value → Option Key
  | .null => some .null
  | .bool b => some (.number (if b then 1 else 0))
  | .num n => some n.key
  | .str s => some (.text s)
  | .arr _ | .obj _ => none

def Value.isNull : Value → Bool
  | .null => true
  | _ => false

theorem Value.key?_eq_text {v : Value} {s : String} : v.key? = some (.text s) ↔ v = .str s := by
  cases v with
  | str t => simp [Value.key?]
  | num n => cases n <;> simp [Value.key?, Number.key]
  | null | bool _ | arr _ | obj _ => simp [Value.key?]

/-! ## Values equal to themselves -/

theorem Number.eq_self {n : Number} (h : n ≠ .nan) : n.eq n = true := by
  cases n with
  | nan => exact absurd rfl h
  | int m => simp [Number.eq, Number.val?]
  | float f => simp [Number.eq, Number.val?]
  | infinity => rfl
  | negInfinity => rfl

theorem Value.eq_str (s t : String) : (Value.str s).eq (.str t) = decide (s = t) := by
  rw [Value.eq]

theorem eqItems_self {vs : List Value} (h : ∀ v ∈ vs, v.eq v = true) : eqItems vs vs = true := by
  induction vs with
  | nil => rfl
  | cons v vs ih =>
      rw [eqItems, h v List.mem_cons_self, ih fun w hw => h w (List.mem_cons_of_mem _ hw)]
      rfl

theorem eqFields_of_mem {fs gs : List (String × Value)} (hkeys : (gs.map Prod.fst).Nodup)
    (hsub : ∀ e ∈ fs, e ∈ gs) (h : ∀ e ∈ fs, e.2.eq e.2 = true) : eqFields fs gs = true := by
  induction fs with
  | nil => rfl
  | cons e fs ih =>
      have hrest : eqFields fs gs = true := ih (fun x hx => hsub x (List.mem_cons_of_mem _ hx))
        fun x hx => h x (List.mem_cons_of_mem _ hx)
      rw [eqFields, Entries.get?_of_mem hkeys (hsub e List.mem_cons_self)]
      dsimp only
      rw [h e List.mem_cons_self, hrest]
      rfl

/-- A value without `nan`, whose objects have no key twice. -/
inductive Value.NoNan : Value → Prop
  | null : NoNan .null
  | bool (b : Bool) : NoNan (.bool b)
  | num {n : Number} (h : n ≠ .nan) : NoNan (.num n)
  | str (s : String) : NoNan (.str s)
  | arr {items : List Value} (h : ∀ v ∈ items, NoNan v) : NoNan (.arr items)
  | obj {fields : List (String × Value)} (hkeys : (fields.map Prod.fst).Nodup)
      (h : ∀ e ∈ fields, NoNan e.2) : NoNan (.obj fields)

theorem Value.NoNan.eq_self {v : Value} (h : v.NoNan) : v.eq v = true := by
  induction h with
  | null => rfl
  | bool b => cases b <;> simp [Value.eq, Value.number?, Number.eq, Number.val?]
  | num h => simpa [Value.eq, Value.number?] using Number.eq_self h
  | str s => simp [Value.eq_str]
  | arr _ ih => exact eqItems_self ih
  | obj hkeys _ ih =>
      rw [Value.eq, eqFields_of_mem hkeys (fun _ he => he) ih]
      simp

/-! ## Values of finite numbers -/

section

variable [FloatReader]

/-- A number that Python has, and that is finite. -/
structure Number.Finite (n : Number) : Prop where
  reads : n.read = n
  finite : n.val?.isSome

/-- A value whose numbers are finite and whose objects have no key twice. -/
inductive Value.Finite : Value → Prop
  | null : Finite .null
  | bool (b : Bool) : Finite (.bool b)
  | num {n : Number} (h : n.Finite) : Finite (.num n)
  | str (s : String) : Finite (.str s)
  | arr {items : List Value} (h : ∀ v ∈ items, Finite v) : Finite (.arr items)
  | obj {fields : List (String × Value)} (hkeys : (fields.map Prod.fst).Nodup)
      (h : ∀ e ∈ fields, Finite e.2) : Finite (.obj fields)

theorem Value.Finite.distinctKeys {v : Value} (h : v.Finite) : v.DistinctKeys := by
  induction h with
  | null => exact .null
  | bool b => exact .bool b
  | num _ => exact .num _
  | str s => exact .str s
  | arr _ ih => exact .arr ih
  | obj hkeys _ ih => exact .obj hkeys ih

theorem readItems_eq_map (vs : List Value) : readItems vs = vs.map Value.read := by
  induction vs with
  | nil => rfl
  | cons v vs ih => rw [readItems, ih, List.map_cons]

theorem Value.Finite.read {v : Value} (h : v.Finite) : v.read = v := by
  induction h with
  | null => rfl
  | bool b => rfl
  | num h => rw [Value.read, h.reads]
  | str s => rfl
  | arr _ ih =>
      rw [Value.read, readItems_eq_map, List.map_congr_left ih, List.map_id']
  | obj _ _ ih =>
      rw [Value.read, readFields_eq_map, List.map_congr_left fun e he => by rw [ih e he]]
      simp

theorem Value.Finite.noNan {v : Value} (h : v.Finite) : v.NoNan := by
  induction h with
  | null => exact .null
  | bool b => exact .bool b
  | num h =>
      refine .num ?_
      rintro rfl
      cases h.finite
  | str s => exact .str s
  | arr _ ih => exact .arr ih
  | obj hkeys _ ih => exact .obj hkeys ih

theorem Value.Finite.eq_self {v : Value} (h : v.Finite) : v.eq v = true := h.noNan.eq_self

end

end Json

import Mathlib.Data.List.Basic

/-!
# Hash chains

Entries that know their position, the hash of the entry before them and their own. Two chains from
one start that meet in a hash agree up to there.
-/

variable {ε η : Type*}

/-- What is chained: the positions that an entry answers to, the hash before it and its own. -/
structure HashChain (ε η : Type*) where
  position : ε → ℕ → Prop
  position_unique : ∀ {e n m}, position e n → position e m → n = m
  previous : ε → η
  hash : ε → η

namespace HashChain

variable (c : HashChain ε η)

/-- The entries stand in order from a position, each linked to the one before it. -/
def Linked : ℕ → η → List ε → Prop
  | _, _, [] => True
  | n, p, e :: es => c.position e n ∧ c.previous e = p ∧ Linked (n + 1) (c.hash e) es

/-- The hash that an entry after the list has to name. -/
def tip (p : η) (es : List ε) : η := (es.getLast?.map c.hash).getD p

variable {c} {n : ℕ} {p : η} {es l : List ε}

theorem tip_cons (e : ε) : c.tip p (e :: es) = c.tip (c.hash e) es := by
  rw [tip, List.getLast?_cons, tip]
  cases es.getLast? <;> rfl

theorem linked_concat {e : ε} :
    c.Linked n p (es ++ [e]) ↔
      c.Linked n p es ∧ c.position e (n + es.length) ∧ c.previous e = c.tip p es := by
  induction es generalizing n p with
  | nil => simp [Linked, tip]
  | cons x xs ih =>
      rw [List.cons_append, Linked, Linked, ih, tip_cons, List.length_cons,
        Nat.add_right_comm n 1 xs.length, Nat.add_assoc n xs.length 1]
      simp only [and_assoc]

theorem Linked.of_append (es l : List ε) (h : c.Linked n p (es ++ l)) : c.Linked n p es := by
  induction es generalizing n p with
  | nil => trivial
  | cons x xs ih => exact ⟨h.1, h.2.1, ih h.2.2⟩

theorem Linked.take (h : c.Linked n p l) (i : ℕ) : c.Linked n p (l.take i) :=
  Linked.of_append (l.take i) (l.drop i) (by rwa [List.take_append_drop])

theorem take_succ_of_getElem? {i : ℕ} {y : ε} (h : l[i]? = some y) :
    l.take (i + 1) = l.take i ++ [y] := by
  rw [List.take_add_one, h]
  rfl

/-- Two chains from one start, whose entries do not collide: if the last entry of the first has the
hash of an entry of the second, the first is the second up to that entry. -/
theorem Linked.eq_take (h : c.Linked 0 p es) (hl : c.Linked 0 p l)
    (hinj : ∀ x ∈ es, ∀ y ∈ l, c.hash x = c.hash y → x = y) {i : ℕ} {x y : ε}
    (hx : es.getLast? = some x) (hy : l[i]? = some y) (hxy : c.hash x = c.hash y) :
    es = l.take (i + 1) := by
  induction i generalizing es x y with
  | zero =>
      obtain ⟨pre, rfl⟩ := List.getLast?_eq_some_iff.mp hx
      obtain rfl := hinj x (by simp) y (List.mem_of_getElem? hy) hxy
      have hxl := hl.take 1
      rw [take_succ_of_getElem? hy, linked_concat] at hxl
      have hlen := c.position_unique (linked_concat.mp h).2.1 hxl.2.1
      rw [List.take_zero, List.length_nil, Nat.zero_add] at hlen
      rw [take_succ_of_getElem? hy, List.eq_nil_of_length_eq_zero hlen, List.take_zero]
  | succ i ih =>
      obtain ⟨pre, rfl⟩ := List.getLast?_eq_some_iff.mp hx
      obtain rfl := hinj x (by simp) y (List.mem_of_getElem? hy) hxy
      have hxl := hl.take (i + 2)
      rw [take_succ_of_getElem? hy, linked_concat] at hxl
      obtain ⟨hpre, hpos, hprev⟩ := linked_concat.mp h
      have hi : i < l.length := Nat.lt_of_succ_lt (List.getElem?_eq_some_iff.mp hy).1
      have hlen := c.position_unique hpos hxl.2.1
      rw [List.length_take_of_le hi, Nat.zero_add, Nat.zero_add] at hlen
      -- the entries before are linked by the hash that both name
      have hy' : l[i]? = some l[i] := List.getElem?_eq_getElem hi
      have htip : c.tip p (l.take (i + 1)) = c.hash l[i] := by
        rw [take_succ_of_getElem? hy', tip, List.getLast?_concat]
        rfl
      have hne : pre ≠ [] := by
        rintro rfl
        cases hlen
      have hx' := List.getLast?_eq_some_getLast hne
      have hlast : c.hash (pre.getLast hne) = c.hash l[i] := by
        rw [← htip, ← hxl.2.2, hprev, tip, hx']
        rfl
      rw [take_succ_of_getElem? hy,
        ← ih hpre (fun x hx => hinj x (List.mem_append_left _ hx)) hx' hy' hlast]

end HashChain

import Mathlib.Data.List.Nodup
import Mathlib.Data.List.Perm.Basic

/-!
# Ordered dictionaries

A Python `dict` or `OrderedDict`: the entries in insertion order, no key twice. `get?` and `set` are
given on bare entry lists first, for records of a nested type, and then on the dictionaries.
-/

namespace Entries

variable {κ ν : Type*} [DecidableEq κ]

def get? (l : List (κ × ν)) (k : κ) : Option ν :=
  match l with
  | [] => none
  | (k', v) :: l => if k' = k then some v else get? l k

/-- Replace the value of a key in place, or append the entry. -/
def set (l : List (κ × ν)) (k : κ) (v : ν) : List (κ × ν) :=
  match l with
  | [] => [(k, v)]
  | (k', v') :: l => if k' = k then (k, v) :: l else (k', v') :: set l k v

/-- `dict.update`. -/
def update (l m : List (κ × ν)) : List (κ × ν) := m.foldl (fun l e => set l e.1 e.2) l

def erase (l : List (κ × ν)) (k : κ) : List (κ × ν) := l.filter fun e => e.1 ≠ k

/-! ## Lookups -/

@[simp] theorem get?_nil (k : κ) : get? ([] : List (κ × ν)) k = none := rfl

theorem get?_cons (e : κ × ν) (l : List (κ × ν)) (k : κ) :
    get? (e :: l) k = if e.1 = k then some e.2 else get? l k := rfl

theorem get?_eq_none {l : List (κ × ν)} {k : κ} : get? l k = none ↔ k ∉ l.map Prod.fst := by
  induction l with
  | nil => simp
  | cons e l ih =>
      rw [get?_cons]
      split
      · rename_i h; simp [h]
      · rename_i h; simp [ih, Ne.symm h]

theorem mem_of_get? {l : List (κ × ν)} {k : κ} {v : ν} (h : get? l k = some v) : (k, v) ∈ l := by
  induction l with
  | nil => cases h
  | cons e l ih =>
      rw [get?_cons] at h
      split at h
      · rename_i he; cases h; rw [← he]; exact List.mem_cons_self
      · exact List.mem_cons_of_mem _ (ih h)

theorem get?_of_mem {l : List (κ × ν)} (hn : (l.map Prod.fst).Nodup) {k : κ} {v : ν}
    (h : (k, v) ∈ l) : get? l k = some v := by
  induction l with
  | nil => cases h
  | cons e l ih =>
      rw [List.map_cons, List.nodup_cons] at hn
      rw [get?_cons]
      rcases List.mem_cons.mp h with rfl | h
      · rw [if_pos rfl]
      · rw [if_neg, ih hn.2 h]
        rintro rfl
        exact hn.1 (List.mem_map.mpr ⟨_, h, rfl⟩)

theorem get?_append (l m : List (κ × ν)) (k : κ) : get? (l ++ m) k = (get? l k).or (get? m k) := by
  induction l with
  | nil => rfl
  | cons e l ih =>
      rw [List.cons_append, get?_cons, get?_cons]
      split
      · rfl
      · exact ih

@[simp] theorem get?_set (l : List (κ × ν)) (k : κ) (v : ν) (k' : κ) :
    get? (set l k v) k' = if k = k' then some v else get? l k' := by
  induction l with
  | nil => rfl
  | cons e l ih =>
      rw [set]
      split
      · rename_i he
        rw [get?_cons, get?_cons, he]
        split <;> rfl
      · rename_i he
        rw [get?_cons, get?_cons, ih]
        split
        · rename_i hk; rw [if_neg fun h => he (hk.trans h.symm)]
        · rfl

/-- One pass that merges each value into the one that its key has had so far. -/
theorem get?_foldl_set {α : Type*} (op : ν → α → ν) (z : ν) (l : List (κ × α)) (m : List (κ × ν))
    (k : κ) :
    get? (l.foldl (fun m e => set m e.1 (op ((get? m e.1).getD z) e.2)) m) k =
      if k ∈ l.map Prod.fst then
        some (((l.filter (·.1 = k)).map Prod.snd).foldl op ((get? m k).getD z))
      else get? m k := by
  induction l generalizing m with
  | nil => rfl
  | cons e l ih =>
      rw [List.foldl_cons, ih, get?_set]
      by_cases hk : e.1 = k
      · have hfilter : (e :: l).filter (·.1 = k) = e :: l.filter (·.1 = k) :=
          List.filter_cons_of_pos (by simpa using hk)
        have hmem : k ∈ (e :: l).map Prod.fst := by simp [hk]
        rw [if_pos hk, if_pos hmem, hfilter, List.map_cons, List.foldl_cons, hk, Option.getD_some]
        split
        · rfl
        · rename_i hnone
          have hnil : l.filter (·.1 = k) = [] := by
            refine List.filter_eq_nil_iff.mpr fun e' he' he'k => hnone ?_
            exact List.mem_map.mpr ⟨e', he', of_decide_eq_true he'k⟩
          rw [hnil]
          rfl
      · have hfilter : (e :: l).filter (·.1 = k) = l.filter (·.1 = k) :=
          List.filter_cons_of_neg (by simpa using hk)
        have hmem : k ∈ (e :: l).map Prod.fst ↔ k ∈ l.map Prod.fst := by
          rw [List.map_cons, List.mem_cons]
          exact or_iff_right (Ne.symm hk)
        rw [if_neg hk, hfilter]
        exact if_congr hmem.symm rfl rfl

theorem get?_filter (l : List (κ × ν)) (keep : κ → Bool) (k : κ) :
    get? (l.filter fun e => keep e.1) k = if keep k then get? l k else none := by
  induction l with
  | nil => simp
  | cons e l ih =>
      by_cases hkeep : keep e.1
      · rw [List.filter_cons, if_pos hkeep, get?_cons, get?_cons, ih]
        by_cases hk : e.1 = k
        · rw [if_pos hk, if_pos hk, if_pos (hk ▸ hkeep)]
        · rw [if_neg hk, if_neg hk]
      · rw [List.filter_cons, if_neg hkeep, get?_cons, ih]
        by_cases hk : e.1 = k
        · rw [if_neg (hk ▸ hkeep), if_neg (hk ▸ hkeep)]
        · rw [if_neg hk]

theorem get?_erase (l : List (κ × ν)) (k k' : κ) :
    get? (erase l k) k' = if k' = k then none else get? l k' := by
  have hget := get?_filter l (fun k'' => k'' ≠ k) k'
  rw [erase, hget]
  by_cases hk : k' = k <;> simp [hk]

theorem mem_set {l : List (κ × ν)} {k : κ} {v : ν} {e : κ × ν} (h : e ∈ set l k v) :
    e = (k, v) ∨ e ∈ l := by
  induction l with
  | nil => exact .inl (List.mem_singleton.mp h)
  | cons f l ih =>
      unfold set at h
      split at h
      · rcases List.mem_cons.mp h with h | h
        · exact .inl h
        · exact .inr (List.mem_cons_of_mem _ h)
      · rcases List.mem_cons.mp h with h | h
        · exact .inr (h ▸ List.mem_cons_self)
        · exact (ih h).imp_right (List.mem_cons_of_mem _)

/-- The loop rule of `update`. -/
theorem update_induction {P : List (κ × ν) → Prop} {l m : List (κ × ν)} (hl : P l)
    (hset : ∀ l, ∀ e ∈ m, P l → P (set l e.1 e.2)) : P (update l m) := by
  unfold update
  induction m generalizing l with
  | nil => exact hl
  | cons e m ih =>
      exact ih (hset l e List.mem_cons_self hl)
        fun l e' he' => hset l e' (List.mem_cons_of_mem _ he')

/-- The last entry of a key in `m` decides what `update` stores under it. -/
theorem get?_update (l m : List (κ × ν)) (k : κ) :
    get? (update l m) k = (get? m.reverse k).or (get? l k) := by
  unfold update
  induction m generalizing l with
  | nil => rfl
  | cons e m ih =>
      rw [List.foldl_cons, ih, List.reverse_cons, get?_append, get?_set, Option.or_assoc]
      congr 1
      rw [get?_cons]
      split <;> rfl

theorem get?_reverse {l : List (κ × ν)} (hn : (l.map Prod.fst).Nodup) (k : κ) :
    get? l.reverse k = get? l k := by
  cases h : get? l k with
  | none =>
      rw [get?_eq_none] at h ⊢
      rwa [List.map_reverse, List.mem_reverse]
  | some v =>
      refine get?_of_mem ?_ (List.mem_reverse.mpr (mem_of_get? h))
      rw [List.map_reverse]
      exact List.nodup_reverse.mpr hn

/-! ## Keys -/

theorem set_of_notMem {l : List (κ × ν)} {k : κ} (h : k ∉ l.map Prod.fst) (v : ν) :
    set l k v = l ++ [(k, v)] := by
  induction l with
  | nil => rfl
  | cons e l ih =>
      rw [List.map_cons, List.mem_cons, not_or] at h
      rw [set, if_neg (Ne.symm h.1), ih h.2, List.cons_append]

theorem set_of_mem {l : List (κ × ν)} (hn : (l.map Prod.fst).Nodup) {k : κ} (h : k ∈ l.map Prod.fst)
    (v : ν) : set l k v = l.map fun e => if e.1 = k then (e.1, v) else e := by
  induction l with
  | nil => cases h
  | cons e l ih =>
      rw [List.map_cons, List.nodup_cons] at hn
      rw [set, List.map_cons]
      by_cases he : e.1 = k
      · subst he
        rw [if_pos rfl, if_pos rfl, List.map_congr_left (g := id), List.map_id]
        intro f hf
        refine if_neg fun heq => hn.1 ?_
        rw [← heq]
        exact List.mem_map_of_mem hf
      · rw [if_neg he, if_neg he]
        rw [List.map_cons, List.mem_cons] at h
        exact congrArg _ (ih hn.2 (h.resolve_left (Ne.symm he)))

theorem keys_set (l : List (κ × ν)) (k : κ) (v : ν) :
    (set l k v).map Prod.fst =
      if k ∈ l.map Prod.fst then l.map Prod.fst else l.map Prod.fst ++ [k] := by
  induction l with
  | nil => rfl
  | cons e l ih =>
      rw [set]
      split
      · rename_i he; simp [he]
      · rename_i he
        simp only [List.map_cons, ih, List.mem_cons, Ne.symm he, false_or]
        split <;> rfl

theorem nodup_set {l : List (κ × ν)} (hn : (l.map Prod.fst).Nodup) (k : κ) (v : ν) :
    ((set l k v).map Prod.fst).Nodup := by
  rw [keys_set]
  split
  · exact hn
  · rename_i hk
    refine List.nodup_append.mpr ⟨hn, List.nodup_singleton _, ?_⟩
    rintro x hx y hy rfl
    exact hk (List.mem_singleton.mp hy ▸ hx)

theorem nodup_foldl_set {α : Type*} (key : α → κ) (value : List (κ × ν) → α → ν) (l : List α)
    {m : List (κ × ν)} (hn : (m.map Prod.fst).Nodup) :
    ((l.foldl (fun m e => set m (key e) (value m e)) m).map Prod.fst).Nodup := by
  induction l generalizing m with
  | nil => exact hn
  | cons e l ih => exact ih (nodup_set hn _ _)

theorem nodup_erase {l : List (κ × ν)} (hn : (l.map Prod.fst).Nodup) (k : κ) :
    ((erase l k).map Prod.fst).Nodup :=
  hn.sublist (List.filter_sublist.map _)

theorem not_mem_erase (l : List (κ × ν)) (k : κ) : k ∉ (erase l k).map Prod.fst := by
  simp [erase]

end Entries

/-- A dictionary, with the order of its entries. -/
structure OrderedDict (κ ν : Type*) where
  entries : List (κ × ν) := []
  nodup : (entries.map Prod.fst).Nodup := by exact List.nodup_nil

namespace OrderedDict

variable {κ ν : Type*}

@[ext] theorem ext {d e : OrderedDict κ ν} (h : d.entries = e.entries) : d = e := by
  cases d; cases e; cases h; rfl

def empty : OrderedDict κ ν := {}

def keys (d : OrderedDict κ ν) : List κ := d.entries.map Prod.fst

def size (d : OrderedDict κ ν) : ℕ := d.entries.length

/-- `popitem(last=False)`. -/
def popFirst (d : OrderedDict κ ν) : OrderedDict κ ν where
  entries := d.entries.tail
  nodup := d.nodup.sublist ((List.tail_sublist _).map _)

theorem size_eq_keys (d : OrderedDict κ ν) : d.size = d.keys.length := by simp [size, keys]

theorem keys_popFirst (d : OrderedDict κ ν) : d.popFirst.keys = d.keys.tail := List.map_tail

theorem size_popFirst (d : OrderedDict κ ν) : d.popFirst.size = d.size - 1 := by
  simp [size, popFirst]

variable [DecidableEq κ]

def get? (d : OrderedDict κ ν) (k : κ) : Option ν := Entries.get? d.entries k

def set (d : OrderedDict κ ν) (k : κ) (v : ν) : OrderedDict κ ν where
  entries := Entries.set d.entries k v
  nodup := Entries.nodup_set d.nodup k v

/-- `pop(k, None)`, without the value. -/
def erase (d : OrderedDict κ ν) (k : κ) : OrderedDict κ ν where
  entries := Entries.erase d.entries k
  nodup := Entries.nodup_erase d.nodup k

/-- The entries whose values are kept. -/
def filterValues (d : OrderedDict κ ν) (keep : ν → Bool) : OrderedDict κ ν where
  entries := d.entries.filter fun e => keep e.2
  nodup := d.nodup.sublist (List.filter_sublist.map _)

/-- `move_to_end(k)` of an entry of `d`. -/
def moveToEnd (d : OrderedDict κ ν) (k : κ) : OrderedDict κ ν :=
  match d.get? k with
  | none => d
  | some v =>
      { entries := Entries.erase d.entries k ++ [(k, v)]
        nodup := by
          rw [List.map_append]
          refine List.nodup_append.mpr ⟨Entries.nodup_erase d.nodup k, List.nodup_singleton _, ?_⟩
          rintro x hx y hy rfl
          cases List.mem_singleton.mp hy
          exact Entries.not_mem_erase d.entries k hx }

/-- `move_to_end(k, last=False)` of an entry of `d`. -/
def moveToFront (d : OrderedDict κ ν) (k : κ) : OrderedDict κ ν :=
  match d.get? k with
  | none => d
  | some v =>
      { entries := (k, v) :: Entries.erase d.entries k
        nodup := List.nodup_cons.mpr
          ⟨Entries.not_mem_erase d.entries k, Entries.nodup_erase d.nodup k⟩ }

/-- Store an entry as the most recent one, and drop the oldest one beyond `max`. -/
def touch (max : ℕ) (d : OrderedDict κ ν) (k : κ) (v : ν) : OrderedDict κ ν :=
  let d := (d.set k v).moveToEnd k
  if d.size > max then d.popFirst else d

/-! ## Lookups -/

theorem mem_keys {d : OrderedDict κ ν} {k : κ} : k ∈ d.keys ↔ ∃ v, d.get? k = some v := by
  rw [← Option.isSome_iff_exists, ← not_iff_not, keys, ← Entries.get?_eq_none]
  simp [get?]

@[simp] theorem get?_empty (k : κ) : (empty : OrderedDict κ ν).get? k = none := rfl

@[simp] theorem get?_set (d : OrderedDict κ ν) (k : κ) (v : ν) (k' : κ) :
    (d.set k v).get? k' = if k = k' then some v else d.get? k' :=
  Entries.get?_set ..

@[simp] theorem get?_erase (d : OrderedDict κ ν) (k k' : κ) :
    (d.erase k).get? k' = if k' = k then none else d.get? k' :=
  Entries.get?_erase ..

@[simp] theorem get?_filterValues (d : OrderedDict κ ν) (keep : ν → Bool) (k : κ) :
    (d.filterValues keep).get? k = (d.get? k).filter keep := by
  obtain ⟨l, hn⟩ := d
  unfold filterValues get?
  dsimp only
  induction l with
  | nil => rfl
  | cons e l ih =>
      rw [List.map_cons, List.nodup_cons] at hn
      rw [List.filter_cons, Entries.get?_cons]
      by_cases he : e.1 = k
      · have hnone : Entries.get? (l.filter fun e => keep e.2) k = none :=
          Entries.get?_eq_none.mpr fun hk =>
            hn.1 (he ▸ (List.filter_sublist.map _).subset hk)
        rw [if_pos he, Option.filter_some]
        split
        · rw [Entries.get?_cons, if_pos he]
        · exact hnone
      · rw [if_neg he, ← ih hn.2]
        split
        · rw [Entries.get?_cons, if_neg he]
        · rfl

@[simp] theorem get?_moveToEnd (d : OrderedDict κ ν) (k k' : κ) :
    (d.moveToEnd k).get? k' = d.get? k' := by
  unfold moveToEnd
  split
  · rfl
  · rename_i v hv
    rw [get?, Entries.get?_append, Entries.get?_erase, Entries.get?_cons]
    split
    · rename_i hk; rw [hk, hv]; simp
    · rename_i hk; rw [if_neg (Ne.symm hk)]; simp [get?]

@[simp] theorem get?_moveToFront (d : OrderedDict κ ν) (k k' : κ) :
    (d.moveToFront k).get? k' = d.get? k' := by
  unfold moveToFront
  split
  · rfl
  · rename_i v hv
    rw [get?, Entries.get?_cons, Entries.get?_erase]
    split
    · rename_i hk; rw [← hv, ← hk]
    · rename_i hk; rw [if_neg (Ne.symm hk), get?]

/-- Dropping the oldest entry hides its key and nothing else. -/
theorem get?_popFirst_of_some {d : OrderedDict κ ν} {k : κ} {v : ν}
    (h : d.popFirst.get? k = some v) : d.get? k = some v :=
  Entries.get?_of_mem d.nodup (List.mem_of_mem_tail (Entries.mem_of_get? h))

theorem get?_touch_of_fits {max : ℕ} {d : OrderedDict κ ν} {k : κ} {v : ν}
    (h : ((d.set k v).moveToEnd k).size ≤ max) (k' : κ) :
    (d.touch max k v).get? k' = if k = k' then some v else d.get? k' := by
  rw [touch, if_neg (Nat.not_lt.mpr h), get?_moveToEnd, get?_set]

/-! ## Sizes -/

theorem keys_perm_moveToEnd (d : OrderedDict κ ν) (k : κ) : (d.moveToEnd k).keys.Perm d.keys := by
  refine (List.perm_ext_iff_of_nodup (moveToEnd d k).nodup d.nodup).mpr fun k' => ?_
  rw [← keys, ← keys, mem_keys, mem_keys]
  simp

@[simp] theorem size_moveToEnd (d : OrderedDict κ ν) (k : κ) : (d.moveToEnd k).size = d.size := by
  rw [size_eq_keys, size_eq_keys, (keys_perm_moveToEnd d k).length_eq]

theorem keys_set (d : OrderedDict κ ν) (k : κ) (v : ν) :
    (d.set k v).keys = if k ∈ d.keys then d.keys else d.keys ++ [k] :=
  Entries.keys_set ..

theorem size_set (d : OrderedDict κ ν) (k : κ) (v : ν) :
    (d.set k v).size = if k ∈ d.keys then d.size else d.size + 1 := by
  rw [size_eq_keys, size_eq_keys, keys_set]
  split <;> simp

/-! ## Caches -/

theorem get?_popFirst (d : OrderedDict κ ν) (k : κ) :
    d.popFirst.get? k = if d.keys.head? = some k then none else d.get? k := by
  cases hd : d.entries with
  | nil => simp [get?, popFirst, keys, hd]
  | cons e l =>
      have hn := d.nodup
      rw [hd, List.map_cons, List.nodup_cons] at hn
      simp only [get?, popFirst, keys, hd, List.tail_cons, List.map_cons, List.head?_cons,
        Option.some.injEq, Entries.get?_cons]
      split
      · rename_i he
        rw [Entries.get?_eq_none, ← he]
        exact hn.1
      · rfl

theorem keys_moveToEnd_set (d : OrderedDict κ ν) (k : κ) (v : ν) :
    ((d.set k v).moveToEnd k).keys = d.keys.filter (· ≠ k) ++ [k] := by
  have hset : Entries.get? (d.set k v).entries k = some v := by simp [set]
  have herase : ∀ l : List (κ × ν),
      (Entries.erase l k).map Prod.fst = (l.map Prod.fst).filter (· ≠ k) := by
    intro l
    rw [Entries.erase, List.filter_map]
    rfl
  have hfilter : ((d.set k v).keys).filter (· ≠ k) = d.keys.filter (· ≠ k) := by
    rw [keys_set]
    split <;> simp
  rw [moveToEnd, get?, hset]
  simp only [keys, List.map_append, herase, List.map_cons, List.map_nil]
  exact congrArg (· ++ [k]) hfilter

/-- The key that leaves a cache when `k` is stored: the oldest one, if `k` is new and the cache is
full. -/
def evicted (max : ℕ) (d : OrderedDict κ ν) (k : κ) : Option κ :=
  if k ∈ d.keys ∨ d.size < max then none else (d.keys ++ [k]).head?

theorem size_set_le {max : ℕ} {d : OrderedDict κ ν} {k : κ} (h : d.size ≤ max) (v : ν) :
    (d.set k v).size ≤ max ↔ k ∈ d.keys ∨ d.size < max := by
  rw [size_set]
  split
  · rename_i hk; exact ⟨fun _ => Or.inl hk, fun _ => h⟩
  · rename_i hk; simp only [hk, false_or]; omega

theorem size_touch_le {max : ℕ} {d : OrderedDict κ ν} (h : d.size ≤ max) (k : κ) (v : ν) :
    (d.touch max k v).size ≤ max := by
  have hset : (d.set k v).size ≤ d.size + 1 := by
    rw [size_set]
    split <;> omega
  unfold touch
  dsimp only
  split
  · rw [size_popFirst, size_moveToEnd]; omega
  · rename_i hfits; exact Nat.le_of_not_lt hfits

/-- What a cache within its limit holds once an entry is stored. -/
theorem get?_touch {max : ℕ} {d : OrderedDict κ ν} (h : d.size ≤ max) (k : κ) (v : ν) (k' : κ) :
    (d.touch max k v).get? k' =
      if d.evicted max k = some k' then none else if k = k' then some v else d.get? k' := by
  unfold evicted
  by_cases hfits : k ∈ d.keys ∨ d.size < max
  · rw [get?_touch_of_fits (by rwa [size_moveToEnd, size_set_le h]), if_pos hfits]
    simp
  · have hfull : ((d.set k v).moveToEnd k).size > max := by
      rw [size_moveToEnd]
      exact Nat.lt_of_not_le fun hle => hfits ((size_set_le h v).mp hle)
    have hk : k ∉ d.keys := fun hk => hfits (Or.inl hk)
    have hkeys : d.keys.filter (· ≠ k) = d.keys :=
      List.filter_eq_self.mpr fun x hx => decide_eq_true fun he : x = k => hk (he ▸ hx)
    rw [touch, if_pos hfull, get?_popFirst, keys_moveToEnd_set, hkeys, if_neg hfits, get?_moveToEnd,
      get?_set]

/-- What is stored stays, unless the cache has no room at all. -/
theorem get?_touch_self {max : ℕ} (hroom : 0 < max) (d : OrderedDict κ ν) (k : κ) (v : ν) :
    (d.touch max k v).get? k = some v := by
  have hstored : ((d.set k v).moveToEnd k).get? k = some v := by
    rw [get?_moveToEnd, get?_set, if_pos rfl]
  unfold touch
  dsimp only
  split
  · rename_i hfull
    rw [get?_popFirst, keys_moveToEnd_set, if_neg, hstored]
    intro hhead
    rw [size_eq_keys, keys_moveToEnd_set] at hfull
    cases hold : d.keys.filter (· ≠ k) with
    | nil =>
        rw [hold] at hfull
        simp at hfull
        omega
    | cons first rest =>
        rw [hold] at hhead
        obtain rfl : first = k := Option.some.inj hhead
        have hmem : first ∈ d.keys.filter (· ≠ first) := by
          rw [hold]
          exact List.mem_cons_self
        exact of_decide_eq_true (List.mem_filter.mp hmem).2 rfl
  · exact hstored

theorem mem_keys_touch {max : ℕ} {d : OrderedDict κ ν} {k k' : κ} {v : ν}
    (h : k' ∈ (d.touch max k v).keys) : k' = k ∨ k' ∈ d.keys := by
  unfold touch at h
  have hmem : k' ∈ ((d.set k v).moveToEnd k).keys := by
    simp only at h
    split at h
    · rw [keys_popFirst] at h
      exact List.mem_of_mem_tail h
    · exact h
  rw [keys_moveToEnd_set] at hmem
  rcases List.mem_append.mp hmem with hmem | hmem
  · exact Or.inr (List.mem_of_mem_filter hmem)
  · exact Or.inl (List.mem_singleton.mp hmem)

/-- What a cache holds after a store was stored or there before. -/
theorem get?_of_touch {max : ℕ} {d : OrderedDict κ ν} {k k' : κ} {v v' : ν}
    (h : (d.touch max k v).get? k' = some v') : k = k' ∧ v = v' ∨ d.get? k' = some v' := by
  have hset : ((d.set k v).moveToEnd k).get? k' = some v' := by
    unfold touch at h
    dsimp only at h
    split at h
    · exact get?_popFirst_of_some h
    · exact h
  rw [get?_moveToEnd, get?_set] at hset
  split at hset
  · rename_i hk; exact Or.inl ⟨hk, Option.some.inj hset⟩
  · exact Or.inr hset

/-- A cache with room for all the keys that come up holds everything that is stored in it. -/
theorem get?_touch_of_subset {max : ℕ} {d : OrderedDict κ ν} {K : List κ}
    (hd : ∀ x ∈ d.keys, x ∈ K) {k : κ} (hk : k ∈ K) (hK : K.length ≤ max) (v : ν) (k' : κ) :
    (d.touch max k v).get? k' = if k = k' then some v else d.get? k' := by
  refine get?_touch_of_fits ?_ k'
  have hsub : ((d.set k v).moveToEnd k).keys ⊆ K := by
    intro x hx
    rw [keys_moveToEnd_set] at hx
    rcases List.mem_append.mp hx with hx | hx
    · exact hd x (List.mem_of_mem_filter hx)
    · rw [List.mem_singleton.mp hx]; exact hk
  rw [size_eq_keys]
  exact Nat.le_trans
    (List.subperm_of_subset ((d.set k v).moveToEnd k).nodup hsub).length_le hK

end OrderedDict

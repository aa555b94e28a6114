import Perpetua.Lib.JsonRoundTrip

/-!
# Objects without repeated keys

The parser keeps the last of a repeated key, so what it builds has no key twice. Reading floats and
sorting keys keep that, and texts of such values are equal only if the values are.
-/

namespace Json

/-! ## What the parser builds -/

/-- The fields have distinct keys, at every depth. -/
structure Distinct (fields : List (String × Value)) : Prop where
  keys : (fields.map Prod.fst).Nodup
  values : ∀ e ∈ fields, e.2.DistinctKeys

theorem Distinct.nil : Distinct [] := ⟨List.nodup_nil, List.forall_mem_nil _⟩

theorem Distinct.set {fields : List (String × Value)} (h : Distinct fields) (k : String) {v : Value}
    (hv : v.DistinctKeys) : Distinct (Entries.set fields k v) where
  keys := Entries.nodup_set h.keys k v
  values := fun e he => by
    have hget := Entries.get?_of_mem (Entries.nodup_set h.keys k v) he
    rw [Entries.get?_set] at hget
    split at hget
    · rw [← Option.some.inj hget]; exact hv
    · exact h.values e (Entries.mem_of_get? hget)

/-- The three scanners build values without repeated keys. -/
structure ScansDistinct (fuel : ℕ) : Prop where
  value : ∀ {cs v rest}, scanValue fuel cs = some (v, rest) → v.DistinctKeys
  items : ∀ {cs vs rest}, scanItems fuel cs = some (vs, rest) → ∀ v ∈ vs, v.DistinctKeys
  fields : ∀ {acc cs fs rest}, Distinct acc → scanFields fuel acc cs = some (fs, rest) → Distinct fs

theorem scanValue_distinct_succ {fuel : ℕ} (ih : ScansDistinct fuel) {cs rest : List Char} {v : Value}
    (h : scanValue (fuel + 1) cs = some (v, rest)) : v.DistinctKeys := by
  unfold scanValue at h
  split at h
  · obtain ⟨p, -, hp⟩ := Option.map_eq_some_iff.mp h
    cases hp
    exact .str _
  · split at h
    · cases h
      exact .obj List.nodup_nil (List.forall_mem_nil _)
    · obtain ⟨p, hscan, hp⟩ := Option.map_eq_some_iff.mp h
      cases hp
      have hfields := ih.fields Distinct.nil hscan
      exact .obj hfields.keys hfields.values
  · split at h
    · cases h
      exact .arr (List.forall_mem_nil _)
    · obtain ⟨p, hscan, hp⟩ := Option.map_eq_some_iff.mp h
      cases hp
      exact .arr (ih.items hscan)
  · cases h; exact .null
  · cases h; exact .bool _
  · cases h; exact .bool _
  · obtain ⟨p, -, hp⟩ := Option.map_eq_some_iff.mp h
    cases hp
    exact .num _

theorem scanItems_distinct_succ {fuel : ℕ} (ih : ScansDistinct fuel) {cs rest : List Char}
    {vs : List Value} (h : scanItems (fuel + 1) cs = some (vs, rest)) :
    ∀ v ∈ vs, v.DistinctKeys := by
  unfold scanItems at h
  split at h
  · cases h
  · rename_i v cs' hscan
    have hv := ih.value hscan
    split at h
    · cases h
      rintro w hw
      rwa [List.mem_singleton.mp hw]
    · obtain ⟨p, hrest, hp⟩ := Option.map_eq_some_iff.mp h
      cases hp
      intro w hw
      rcases List.mem_cons.mp hw with rfl | hw
      · exact hv
      · exact ih.items hrest w hw
    · cases h

theorem scanFields_distinct_succ {fuel : ℕ} (ih : ScansDistinct fuel)
    {acc fs : List (String × Value)} {cs rest : List Char} (hacc : Distinct acc)
    (h : scanFields (fuel + 1) acc cs = some (fs, rest)) : Distinct fs := by
  unfold scanFields at h
  split at h
  · split at h
    · cases h
    · rename_i key _ _
      split at h
      · split at h
        · cases h
        · rename_i v _ hscan
          have hset := hacc.set (.ofList key) (ih.value hscan)
          dsimp only at h
          split at h
          · cases h; exact hset
          · exact ih.fields hset h
          · cases h
      · cases h
  · cases h

theorem scansDistinct (fuel : ℕ) : ScansDistinct fuel := by
  induction fuel with
  | zero =>
      constructor
      · intro cs v rest h; unfold scanValue at h; cases h
      · intro cs vs rest h; unfold scanItems at h; cases h
      · intro acc cs fs rest _ h; unfold scanFields at h; cases h
  | succ fuel ih =>
      exact ⟨scanValue_distinct_succ ih, scanItems_distinct_succ ih, scanFields_distinct_succ ih⟩

theorem distinctKeys_of_parse {cs : List Char} {v : Value} (h : parse cs = some v) :
    v.DistinctKeys := by
  unfold parse at h
  split at h
  · rename_i hscan
    split at h
    · cases h; exact (scansDistinct _).value hscan
    · cases h
  · cases h

/-! ## Reading floats and sorting keys -/

theorem mem_readItems [FloatReader] {vs : List Value} {w : Value} (h : w ∈ readItems vs) :
    ∃ v ∈ vs, w = v.read := by
  induction vs with
  | nil => cases h
  | cons v vs ih =>
      rw [readItems] at h
      rcases List.mem_cons.mp h with rfl | h
      · exact ⟨v, List.mem_cons_self, rfl⟩
      · obtain ⟨u, hu, rfl⟩ := ih h
        exact ⟨u, List.mem_cons_of_mem _ hu, rfl⟩

theorem readFields_eq_map [FloatReader] (fs : List (String × Value)) :
    readFields fs = fs.map fun e => (e.1, e.2.read) := by
  induction fs with
  | nil => rfl
  | cons e fs ih => rw [readFields, ih, List.map_cons]

theorem Value.DistinctKeys.read [FloatReader] {v : Value} (h : v.DistinctKeys) :
    v.read.DistinctKeys := by
  induction h with
  | null => exact .null
  | bool b => exact .bool b
  | num n => exact .num _
  | str s => exact .str s
  | arr _ ih =>
      refine .arr fun w hw => ?_
      obtain ⟨v, hv, rfl⟩ := mem_readItems hw
      exact ih v hv
  | obj hkeys _ ih =>
      rw [Value.read, readFields_eq_map]
      refine .obj (by rwa [List.map_map]) fun e he => ?_
      obtain ⟨f, hf, rfl⟩ := List.mem_map.mp he
      exact ih f hf

theorem distinctKeys_of_loads [FloatReader] {cs : List Char} {v : Value} (h : loads cs = some v) :
    v.DistinctKeys := by
  obtain ⟨w, hparse, rfl⟩ := Option.map_eq_some_iff.mp h
  exact (distinctKeys_of_parse hparse).read

theorem perm_insertField (k : String) (v : Value) (fs : List (String × Value)) :
    (insertField k v fs).Perm ((k, v) :: fs) := by
  induction fs with
  | nil => exact List.Perm.refl _
  | cons e fs ih =>
      obtain ⟨k', v'⟩ := e
      rw [insertField]
      split
      · exact List.Perm.refl _
      · exact (ih.cons _).trans (List.Perm.swap _ _ _)

theorem perm_sortKeysFields (fs : List (String × Value)) :
    (sortKeysFields fs).Perm (fs.map fun e => (e.1, sortKeys e.2)) := by
  induction fs with
  | nil => exact List.Perm.refl _
  | cons e fs ih => exact (perm_insertField _ _ _).trans (ih.cons _)

theorem sortKeysItems_eq_map (vs : List Value) : sortKeysItems vs = vs.map sortKeys := by
  induction vs with
  | nil => rfl
  | cons v vs ih => rw [sortKeysItems, ih, List.map_cons]

theorem Value.DistinctKeys.sortKeys {v : Value} (h : v.DistinctKeys) :
    (Json.sortKeys v).DistinctKeys := by
  induction h with
  | null => exact .null
  | bool b => exact .bool b
  | num n => exact .num n
  | str s => exact .str s
  | arr _ ih =>
      rw [Json.sortKeys, sortKeysItems_eq_map]
      refine .arr fun w hw => ?_
      obtain ⟨v, hv, rfl⟩ := List.mem_map.mp hw
      exact ih v hv
  | @obj fields hkeys _ ih =>
      have hperm := perm_sortKeysFields fields
      refine .obj ?_ fun e he => ?_
      · rw [(hperm.map Prod.fst).nodup_iff, List.map_map]
        exact hkeys
      · obtain ⟨f, hf, rfl⟩ := List.mem_map.mp (hperm.mem_iff.mp he)
        exact ih f hf

theorem eq_str_of_sortKeys {v : Value} {s : String} (h : sortKeys v = .str s) : v = .str s := by
  cases v <;> rw [sortKeys] at h <;> cases h
  rfl

theorem eq_num_of_sortKeys {v : Value} {n : Number} (h : sortKeys v = .num n) : v = .num n := by
  cases v <;> rw [sortKeys] at h <;> cases h
  rfl

/-- Values whose texts are equal are equal. -/
theorem dumps_inj {sep : Separators} (hsep : sep.Readable) {v w : Value} (hv : v.DistinctKeys)
    (hw : w.DistinctKeys) (h : dumps sep v = dumps sep w) : v = w := by
  have hparse := parse_dumps hsep hv
  rw [h, parse_dumps hsep hw] at hparse
  exact (Option.some.inj hparse).symm

end Json

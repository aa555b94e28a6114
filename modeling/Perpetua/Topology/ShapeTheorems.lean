import Perpetua.Topology.Fragments

/-!
# The shape of a sanitized payload

Sanitizing keeps lists, objects and what is no text. Which keys and identifiers it keeps is decided
by the fragments that are found in them.
-/

namespace Perpetua.Topology

open Json (Value)
open Redaction (UnicodeTables)

/-- A key with neither `@` nor a path separator. -/
def PlainKey (key : String) : Prop := '@' ∉ key.toList ∧ '/' ∉ key.toList ∧ '\\' ∉ key.toList

mutual
/-- The second value has the shape of the first: the same nesting, the same values that are no
text, the same opaque identifiers and the same plain keys. -/
inductive KeepsShape : Value → Value → Prop
  | null : KeepsShape .null .null
  | bool (b : Bool) : KeepsShape (.bool b) (.bool b)
  | num (n : Json.Number) : KeepsShape (.num n) (.num n)
  | str {s s' : String} (h : isOpaqueProducerId s.toList = true → s' = s) :
      KeepsShape (.str s) (.str s')
  | arr {items items' : List Value} (h : KeepsItems items items') : KeepsShape (.arr items) (.arr items')
  | obj {fields fields' : List (String × Value)} (h : KeepsFields fields fields') :
      KeepsShape (.obj fields) (.obj fields')

inductive KeepsItems : List Value → List Value → Prop
  | nil : KeepsItems [] []
  | cons {v v' : Value} {items items' : List Value} (hv : KeepsShape v v')
      (h : KeepsItems items items') : KeepsItems (v :: items) (v' :: items')

inductive KeepsFields : List (String × Value) → List (String × Value) → Prop
  | nil : KeepsFields [] []
  | cons {key key' : String} {v v' : Value} {fields fields' : List (String × Value)}
      (hkey : PlainKey key → key' = key) (hv : KeepsShape v v') (h : KeepsFields fields fields') :
      KeepsFields ((key, v) :: fields) ((key', v') :: fields')
end

mutual
/-- Nothing is found in an opaque identifier or in a plain key. -/
def Spared (found : String → Prop) : Value → Prop
  | .str s => isOpaqueProducerId s.toList = true → ¬ found s
  | .obj fields => SparedFields found fields
  | .arr items => SparedItems found items
  | _ => True

def SparedFields (found : String → Prop) : List (String × Value) → Prop
  | [] => True
  | (key, v) :: fields => (PlainKey key → ¬ found key) ∧ Spared found v ∧ SparedFields found fields

def SparedItems (found : String → Prop) : List Value → Prop
  | [] => True
  | v :: items => Spared found v ∧ SparedItems found items
end

mutual
theorem keepsShape_refl : (v : Value) → KeepsShape v v
  | .null => .null
  | .bool b => .bool b
  | .num n => .num n
  | .str _ => .str fun _ => rfl
  | .arr items => .arr (keepsItems_refl items)
  | .obj fields => .obj (keepsFields_refl fields)

theorem keepsItems_refl : (items : List Value) → KeepsItems items items
  | [] => .nil
  | v :: items => .cons (keepsShape_refl v) (keepsItems_refl items)

theorem keepsFields_refl : (fields : List (String × Value)) → KeepsFields fields fields
  | [] => .nil
  | (_, v) :: fields => .cons (fun _ => rfl) (keepsShape_refl v) (keepsFields_refl fields)
end

mutual
theorem spared_of_none {found : String → Prop} (h : ∀ s, ¬ found s) : (v : Value) → Spared found v
  | .null => trivial
  | .bool _ => trivial
  | .num _ => trivial
  | .str s => fun _ => h s
  | .arr items => sparedItems_of_none h items
  | .obj fields => sparedFields_of_none h fields

theorem sparedItems_of_none {found : String → Prop} (h : ∀ s, ¬ found s) :
    (items : List Value) → SparedItems found items
  | [] => trivial
  | v :: items => ⟨spared_of_none h v, sparedItems_of_none h items⟩

theorem sparedFields_of_none {found : String → Prop} (h : ∀ s, ¬ found s) :
    (fields : List (String × Value)) → SparedFields found fields
  | [] => trivial
  | (key, v) :: fields => ⟨fun _ => h key, spared_of_none h v, sparedFields_of_none h fields⟩
end

section

variable [UnicodeTables] [CaseTables]

/-- One of the fragments is found in the text, and is not the redaction itself. -/
def Mentions (fragments : List Text) (s : String) : Prop :=
  ∃ f ∈ fragments, ∃ m ∈ matchersOf f, Substitution.finds m legacyRedacted s.toList = true

/-- A text is kept exactly when it mentions no fragment. -/
theorem scrubString_eq_self_iff {fragments : List Text} (hf : ∀ f ∈ fragments, IsFragment f)
    (s : String) : scrubString fragments s = s ↔ ¬ Mentions fragments s := by
  have hproper : ∀ m ∈ fragments.flatMap matchersOf, Substitution.Proper m := by
    intro m hm
    obtain ⟨f, hmem, hm⟩ := List.mem_flatMap.mp hm
    exact proper_of_mem (hf f hmem).ne_nil hm
  have hwordWise : ∀ m ∈ fragments.flatMap matchersOf, Substitution.WordWise m legacyRedacted := by
    intro m hm
    obtain ⟨f, -, hm⟩ := List.mem_flatMap.mp hm
    exact wordWise_of_mem hm
  have hfold := Substitution.foldl_sub_eq_self_iff hproper hwordWise s.toList
  have htext : scrubString fragments s = s ↔ scrubText fragments s.toList = s.toList := by
    constructor
    · intro h
      have htoList := congrArg String.toList h
      rwa [scrubString, String.toList_ofList] at htoList
    · intro h
      rw [scrubString, h, String.ofList_toList]
  rw [htext]
  refine hfold.trans ?_
  constructor
  · rintro h ⟨f, hf, m, hm, hfound⟩
    rw [h m (List.mem_flatMap.mpr ⟨f, hf, hm⟩)] at hfound
    cases hfound
  · intro h m hm
    obtain ⟨f, hf, hm⟩ := List.mem_flatMap.mp hm
    by_contra hfound
    exact h ⟨f, hf, m, hm, by simpa using hfound⟩

mutual
theorem scrub_keepsShape_iff {fragments : List Text} (hf : ∀ f ∈ fragments, IsFragment f) :
    (v : Value) → {v' : Value} → scrub fragments v = some v' →
      (KeepsShape v v' ↔ Spared (Mentions fragments) v)
  | .null, _, h => by
      cases h
      exact iff_of_true .null trivial
  | .bool b, _, h => by
      cases h
      exact iff_of_true (.bool b) trivial
  | .num n, _, h => by
      cases h
      exact iff_of_true (.num n) trivial
  | .str s, _, h => by
      cases h
      rw [Spared, ← scrubString_eq_self_iff hf]
      constructor
      · intro hkept
        cases hkept with
        | str hkept => exact hkept
      · exact .str
  | .arr items, _, h => by
      obtain ⟨items', hitems, rfl⟩ := Option.map_eq_some_iff.mp h
      rw [Spared, ← scrubItems_keepsShape_iff hf items hitems]
      constructor
      · intro hkept
        cases hkept with
        | arr hkept => exact hkept
      · exact .arr
  | .obj fields, _, h => by
      obtain ⟨fields', hfields, rfl⟩ := Option.map_eq_some_iff.mp h
      rw [Spared, ← scrubFields_keepsShape_iff hf [] fields hfields]
      constructor
      · intro hkept
        cases hkept with
        | obj hkept => exact hkept
      · exact .obj

theorem scrubItems_keepsShape_iff {fragments : List Text} (hf : ∀ f ∈ fragments, IsFragment f) :
    (items : List Value) → {items' : List Value} → scrubItems fragments items = some items' →
      (KeepsItems items items' ↔ SparedItems (Mentions fragments) items)
  | [], _, h => by
      cases h
      exact iff_of_true .nil trivial
  | v :: items, _, h => by
      rw [scrubItems] at h
      cases hv : scrub fragments v with
      | none =>
          rw [hv] at h
          cases h
      | some v' =>
          rw [hv] at h
          obtain ⟨items', hitems, rfl⟩ := Option.map_eq_some_iff.mp h
          rw [SparedItems, ← scrub_keepsShape_iff hf v hv, ← scrubItems_keepsShape_iff hf items hitems]
          constructor
          · intro hkept
            cases hkept with
            | cons hkept hrest => exact ⟨hkept, hrest⟩
          · exact fun hkept => .cons hkept.1 hkept.2

theorem scrubFields_keepsShape_iff {fragments : List Text} (hf : ∀ f ∈ fragments, IsFragment f) :
    (seen : List String) → (fields : List (String × Value)) → {fields' : List (String × Value)} →
      scrubFields fragments seen fields = some fields' →
      (KeepsFields fields fields' ↔ SparedFields (Mentions fragments) fields)
  | _, [], _, h => by
      cases h
      exact iff_of_true .nil trivial
  | seen, (key, v) :: fields, _, h => by
      simp only [scrubFields] at h
      split at h
      · cases h
      · cases hv : scrub fragments v with
        | none =>
            rw [hv] at h
            cases h
        | some v' =>
            rw [hv] at h
            obtain ⟨fields', hfields, rfl⟩ := Option.map_eq_some_iff.mp h
            rw [SparedFields, ← scrub_keepsShape_iff hf v hv,
              ← scrubFields_keepsShape_iff hf _ fields hfields, ← scrubString_eq_self_iff hf]
            constructor
            · intro hkept
              cases hkept with
              | cons hkey hkept hrest => exact ⟨hkey, hkept, hrest⟩
            · exact fun hkept => .cons hkept.1 hkept.2.1 hkept.2.2
end

/-- The keys that are no plain ones apart, a sanitized payload has the shape of the payload exactly
when no fragment of a legacy label is found in a plain key or an opaque identifier. -/
theorem sanitizeTopology_keepsShape_iff {order : SetOrder} {payload result : Value}
    (h : sanitizeTopology order payload = some result) :
    KeepsShape payload result ↔ Spared (Mentions (fragmentSet payload)) payload := by
  have hmentions : Mentions (legacyFragments order payload) = Mentions (fragmentSet payload) := by
    funext s
    simp only [Mentions, mem_legacyFragments]
  have hnone : classifyPayload payload ≠ .unclassified → classifyPayload payload ≠ .legacyLabel →
      ∀ s, ¬ Mentions (fragmentSet payload) s := by
    rintro hclass hlegacy s ⟨f, hf, -⟩
    rw [fragmentSet_eq_nil hclass hlegacy] at hf
    cases hf
  rw [← hmentions] at hnone ⊢
  obtain ⟨hresult, -⟩ := Option.filter_eq_some_iff.mp h
  cases hclass : classifyPayload payload with
  | unclassified =>
      rw [hclass] at hresult
      cases hresult
  | legacyLabel =>
      rw [hclass] at hresult
      exact scrub_keepsShape_iff (fun f hf => isFragment_of_mem (mem_legacyFragments.mp hf)) payload
        hresult
  | opaqueId =>
      rw [hclass] at hresult
      cases hresult
      exact iff_of_true (keepsShape_refl payload)
        (spared_of_none (hnone (by simp [hclass]) (by simp [hclass])) _)
  | noTopology =>
      rw [hclass] at hresult
      cases hresult
      exact iff_of_true (keepsShape_refl payload)
        (spared_of_none (hnone (by simp [hclass]) (by simp [hclass])) _)

end

/-! ## A branch with the name of a field -/

@[reducible] def asciiTables : UnicodeTables := ⟨fun _ => false, fun _ => false⟩

@[reducible] def asciiCases : CaseTables := ⟨fun a b => a == b, fun a b h => by rw [beq_iff_eq.mp h]⟩

/-- Sets are iterated in the order in which their elements come first. -/
def listed : SetOrder := ⟨List.dedup, fun _ => .refl _⟩

/-- A note on a branch. -/
def branchNote (branch : String) : Value :=
  .obj [("kind", .str "note"), ("worktree", .str (branch ++ "@/srv/x"))]

theorem sanitizeTopology_topic : @sanitizeTopology asciiTables asciiCases listed (branchNote "topic") =
    some (.obj [("kind", .str "note"), ("worktree", .str "legacy-redacted")]) := rfl

theorem sanitizeTopology_kind : @sanitizeTopology asciiTables asciiCases listed (branchNote "kind") =
    some (.obj [("legacy-redacted", .str "note"), ("worktree", .str "legacy-redacted")]) := rfl

theorem spared_topic : @Spared (@Mentions asciiTables asciiCases (fragmentSet (branchNote "topic")))
    (branchNote "topic") := by
  apply (@sanitizeTopology_keepsShape_iff asciiTables asciiCases listed _ _ sanitizeTopology_topic).mp
  refine .obj (.cons (fun _ => rfl) (.str fun _ => rfl) (.cons (fun _ => rfl) (.str fun h => ?_) .nil))
  exact absurd h (by decide)

/-- A branch that is called `kind` renames the field `kind`. -/
theorem not_keepsShape_kind : ∃ result,
    @sanitizeTopology asciiTables asciiCases listed (branchNote "kind") = some result ∧
      ¬ KeepsShape (branchNote "kind") result := by
  refine ⟨_, sanitizeTopology_kind, fun h => ?_⟩
  cases h with
  | obj h =>
      cases h with
      | cons hkey _ _ => exact absurd (hkey ⟨by decide, by decide, by decide⟩) (by decide)

end Perpetua.Topology

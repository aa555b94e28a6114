import Perpetua.GossipBus
import Perpetua.Redaction.TextTheorems

/-!
# Secrets in stored payloads

`redact_mapping` redacts values at any depth and leaves the keys as they are. A stored payload is free
of secrets exactly when the keys that it keeps are.
-/

namespace Perpetua.GossipBus

open Redaction

/-! ## Texts and keys -/

mutual

/-- The strings of a value at any depth, keys and values. -/
def texts : Json.Value → List String
  | .str s => [s]
  | .arr items => textsOfItems items
  | .obj fields => textsOfFields fields
  | .null | .bool _ | .num _ => []

def textsOfItems : List Json.Value → List String
  | [] => []
  | v :: vs => texts v ++ textsOfItems vs

def textsOfFields : List (String × Json.Value) → List String
  | [] => []
  | (k, v) :: fs => k :: (texts v ++ textsOfFields fs)

end

mutual

/-- The fields of the objects in a value, at any depth. -/
def fieldsIn : Json.Value → List (String × Json.Value)
  | .arr items => fieldsInItems items
  | .obj fields => fieldsInFields fields
  | .str _ | .null | .bool _ | .num _ => []

def fieldsInItems : List Json.Value → List (String × Json.Value)
  | [] => []
  | v :: vs => fieldsIn v ++ fieldsInItems vs

def fieldsInFields : List (String × Json.Value) → List (String × Json.Value)
  | [] => []
  | (k, v) :: fs => (k, v) :: (fieldsIn v ++ fieldsInFields fs)

end

mutual

/-- The keys of a value that no credential key stands above. -/
def openKeys : Json.Value → List String
  | .arr items => openKeysOfItems items
  | .obj fields => openKeysOfFields fields
  | .str _ | .null | .bool _ | .num _ => []

def openKeysOfItems : List Json.Value → List String
  | [] => []
  | v :: vs => openKeys v ++ openKeysOfItems vs

def openKeysOfFields : List (String × Json.Value) → List String
  | [] => []
  | (k, v) :: fs => k :: ((if k ∈ credentialKeys then [] else openKeys v) ++ openKeysOfFields fs)

end

/-- The keys of a payload that a stored one still has. -/
def keptKeys (payload : Payload) : List String :=
  openKeysOfFields (Entries.erase (Entries.erase payload "_memory_class") "_redaction_applied")

section Stored

variable [UnicodeTables]

/-- No string of a payload has a secret, and nothing but the marker stands under a credential key. -/
structure SecretFree (payload : Payload) : Prop where
  texts : ∀ s ∈ textsOfFields payload, ∀ p ∈ secretPatterns, Regex.search p.2 s = false
  masked : ∀ f ∈ fieldsInFields payload, f.1 ∈ credentialKeys → f.2 = .str redactedMarker

theorem redactText_redactedMarker : redactText redactedMarker = redactedMarker := by
  apply redactText_of_short
  · rw [toList_redactedMarker]
    decide
  · rw [toList_redactedMarker]
    decide

theorem containsSecret_redactText (s : String) : containsSecret (redactText s) = false :=
  containsSecret_eq_false.mpr fun p hp =>
    search_redactText s p.2 (List.mem_append_left _ (List.mem_map_of_mem hp))

theorem containsSecret_redactedMarker : containsSecret redactedMarker = false := by
  rw [← redactText_redactedMarker]
  exact containsSecret_redactText redactedMarker

/-! ## What redaction does to them -/

mutual

theorem texts_redactValue {s : String} : (v : Json.Value) →
    (s ∈ texts (redactValue v) → containsSecret s = true → s ∈ openKeys v) ∧
      (s ∈ openKeys v → s ∈ texts (redactValue v))
  | .str t => by
      constructor
      · intro hs hsecret
        rw [redactValue, texts, List.mem_singleton] at hs
        rw [hs, containsSecret_redactText] at hsecret
        cases hsecret
      · intro hs
        cases hs
  | .arr items => texts_redactItems items
  | .obj fields => texts_redactMapping fields
  | .null => by simp [redactValue, texts, openKeys]
  | .bool _ => by simp [redactValue, texts, openKeys]
  | .num _ => by simp [redactValue, texts, openKeys]

theorem texts_redactItems {s : String} : (items : List Json.Value) →
    (s ∈ textsOfItems (redactItems items) → containsSecret s = true → s ∈ openKeysOfItems items) ∧
      (s ∈ openKeysOfItems items → s ∈ textsOfItems (redactItems items))
  | [] => by simp [redactItems, textsOfItems, openKeysOfItems]
  | v :: vs => by
      obtain ⟨hv, hv'⟩ := texts_redactValue (s := s) v
      obtain ⟨hvs, hvs'⟩ := texts_redactItems (s := s) vs
      simp only [redactItems, textsOfItems, openKeysOfItems, List.mem_append]
      exact ⟨fun hs hsecret => hs.imp (fun h => hv h hsecret) fun h => hvs h hsecret,
        Or.imp hv' hvs'⟩

theorem texts_redactMapping {s : String} : (fields : List (String × Json.Value)) →
    (s ∈ textsOfFields (redactMapping fields) → containsSecret s = true →
        s ∈ openKeysOfFields fields) ∧
      (s ∈ openKeysOfFields fields → s ∈ textsOfFields (redactMapping fields))
  | [] => by simp [redactMapping, textsOfFields, openKeysOfFields]
  | (k, v) :: fs => by
      obtain ⟨hv, hv'⟩ := texts_redactValue (s := s) v
      obtain ⟨hfs, hfs'⟩ := texts_redactMapping (s := s) fs
      simp only [redactMapping, textsOfFields, openKeysOfFields, List.mem_cons, List.mem_append]
      by_cases hk : k ∈ credentialKeys
      · simp only [if_pos hk, texts, List.mem_singleton, List.not_mem_nil, false_or]
        constructor
        · rintro (rfl | rfl | h) hsecret
          · exact Or.inl rfl
          · rw [containsSecret_redactedMarker] at hsecret
            cases hsecret
          · exact Or.inr (hfs h hsecret)
        · exact Or.imp_right fun h => Or.inr (hfs' h)
      · simp only [if_neg hk]
        constructor
        · rintro (rfl | h | h) hsecret
          · exact Or.inl rfl
          · exact Or.inr (Or.inl (hv h hsecret))
          · exact Or.inr (Or.inr (hfs h hsecret))
        · exact Or.imp_right (Or.imp hv' hfs')

end

mutual

theorem masked_redactValue {f : String × Json.Value} (hf : f.1 ∈ credentialKeys) :
    (v : Json.Value) → f ∈ fieldsIn (redactValue v) → f.2 = .str redactedMarker
  | .str _, h => by cases h
  | .arr items, h => masked_redactItems hf items h
  | .obj fields, h => masked_redactMapping hf fields h
  | .null, h => by cases h
  | .bool _, h => by cases h
  | .num _, h => by cases h

theorem masked_redactItems {f : String × Json.Value} (hf : f.1 ∈ credentialKeys) :
    (items : List Json.Value) → f ∈ fieldsInItems (redactItems items) → f.2 = .str redactedMarker
  | [], h => by cases h
  | v :: vs, h => by
      rw [redactItems, fieldsInItems, List.mem_append] at h
      rcases h with h | h
      · exact masked_redactValue hf v h
      · exact masked_redactItems hf vs h

theorem masked_redactMapping {f : String × Json.Value} (hf : f.1 ∈ credentialKeys) :
    (fields : List (String × Json.Value)) → f ∈ fieldsInFields (redactMapping fields) →
      f.2 = .str redactedMarker
  | [], h => by cases h
  | (k, v) :: fs, h => by
      rw [redactMapping, fieldsInFields, List.mem_cons, List.mem_append] at h
      rcases h with rfl | h | h
      · exact if_pos hf
      · split at h
        · cases h
        · exact masked_redactValue hf v h
      · exact masked_redactMapping hf fs h

end

theorem redactMapping_erase (fields : List (String × Json.Value)) (k : String) :
    redactMapping (Entries.erase fields k) = Entries.erase (redactMapping fields) k := by
  induction fields with
  | nil => rfl
  | cons e fields ih =>
      obtain ⟨k', v⟩ := e
      rw [redactMapping, Entries.erase, Entries.erase, List.filter_cons, List.filter_cons]
      split
      · rw [redactMapping]
        exact congrArg _ ih
      · exact ih

/-! ## Stored payloads -/

theorem durablePayload_eq (payload : Payload) : durablePayload payload =
    redactMapping (Entries.erase (Entries.erase payload "_memory_class") "_redaction_applied") := by
  rw [durablePayload, redactMapping_erase, redactMapping_erase]

theorem secretFree_redactMapping (fields : List (String × Json.Value)) :
    SecretFree (redactMapping fields) ↔ ∀ k ∈ openKeysOfFields fields, containsSecret k = false := by
  constructor
  · intro h k hk
    exact containsSecret_eq_false.mpr (h.texts k ((texts_redactMapping fields).2 hk))
  · intro h
    constructor
    · intro s hs
      rw [← containsSecret_eq_false]
      by_contra hsecret
      rw [Bool.not_eq_false] at hsecret
      have hfree := h s ((texts_redactMapping fields).1 hs hsecret)
      rw [hsecret] at hfree
      cases hfree
    · exact fun f hf hkey => masked_redactMapping hkey fields hf

/-- What `insert_event` stores of a payload is free of secrets exactly when no key that it keeps has
one. -/
theorem insertEvent_secretFree_iff {τ : Type} {log : GossipLog τ} {eventUuid : String}
    (hfresh : ∀ row ∈ log, row.eventUuid ≠ eventUuid) (ts : τ) (eventType : String)
    (payload : Payload) :
    ∃ row, insertEvent eventUuid ts eventType payload log = (log ++ [row], true) ∧
      row.eventUuid = eventUuid ∧
      (SecretFree row.payload ↔ ∀ k ∈ keptKeys payload, containsSecret k = false) := by
  have hany : log.any (·.eventUuid = eventUuid) = false := by
    simpa [List.any_eq_false] using hfresh
  refine ⟨⟨eventUuid, ts, eventType, durablePayload payload⟩, ?_, rfl, ?_⟩
  · rw [insertEvent, hany]
    rfl
  · dsimp only
    rw [durablePayload_eq]
    exact secretFree_redactMapping _

end Stored

/-- A token as the name of a field. -/
def samplePayload : Payload := [("ghp_ABCDEFGHIJKLMNOPQRST", .str "owner")]

attribute [local instance] plainTables

/-- A token as the value of a field. -/
def safePayload : Payload := [("owner", .str "ghp_ABCDEFGHIJKLMNOPQRST"), ("note", .str "done")]

def sampleLog : GossipLog ℕ := [⟨"e0", 0, "result", []⟩, ⟨"e1", 0, "result", durablePayload safePayload⟩]

theorem insertEvent_secretFree_iff_sample : ∃ row,
    insertEvent "e2" 0 "result" safePayload sampleLog = (sampleLog ++ [row], true) ∧
      SecretFree row.payload := by
  have hfresh : ∀ row ∈ sampleLog, row.eventUuid ≠ "e2" := by
    intro row hrow
    rcases List.mem_pair.mp hrow with rfl | rfl
    · decide
    · decide
  obtain ⟨row, hrow, -, hfree⟩ := insertEvent_secretFree_iff hfresh 0 "result" safePayload
  exact ⟨row, hrow, hfree.mpr (by decide +kernel)⟩

theorem insertEvent_not_secretFree : ∃ row,
    insertEvent "e1" 0 "result" samplePayload [] = ([row], true) ∧ ¬SecretFree row.payload := by
  refine ⟨⟨"e1", 0, "result", durablePayload samplePayload⟩, rfl, fun h => ?_⟩
  have hkey := (containsSecret_eq_false (s := "ghp_ABCDEFGHIJKLMNOPQRST")).mpr
    (h.texts _ (by rw [durablePayload_eq]; exact List.mem_cons_self))
  have hsecret : containsSecret "ghp_ABCDEFGHIJKLMNOPQRST" = true := by decide +kernel
  rw [hsecret] at hkey
  cases hkey

end Perpetua.GossipBus

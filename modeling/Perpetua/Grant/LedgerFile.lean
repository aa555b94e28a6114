import Perpetua.Grant.Ledger
import Perpetua.Lib.JsonObjects
import Perpetua.Lib.JsonTorn
import Perpetua.Lib.PyText

/-!
# The ledger's file

The model of `_locked_nonce_state` and `_write_nonce_state` on the text of the ledger, which is
truncated in place before the new text is written. `json.dump` writes ASCII, so a byte is a
character.
-/

namespace Perpetua.Grant

open Json (Value)

abbrev Dict := List (String × Value)

/-- The dictionary that a ledger operation writes. -/
structure NonceState where
  fields : Dict
  distinct : Json.Distinct fields

/-- `_parse_timestamp(str(value))`, in microseconds. No law is assumed. -/
class StampText where
  stamp : Value → Option ℤ

/-- An entry that is no dictionary becomes an empty one. -/
def withDict (key : String) (state : Dict) : Dict :=
  match Entries.get? state key with
  | some (.obj _) => state
  | _ => Entries.set state key (.obj [])

/-- The state that the operations see. -/
def normalized (state : Dict) : Dict := withDict "reservations" (withDict "nonces" state)

/-- The state of a ledger without a readable text. -/
def emptyState : Dict := normalized [("nonces", .obj [])]

section

variable [Json.FloatReader]

/-- What `_locked_nonce_state` yields; nothing where the text is a value of another type, and
`TypeError` is raised. -/
def readState (raw : List Char) : Option Dict :=
  if PyText.blank (.ofList raw) then some emptyState
  else
    match Json.loads raw with
    | none => some emptyState
    | some (.obj fields) => some (normalized fields)
    | some _ => none

/-- The text that `json.dump` writes. -/
def NonceState.text (s : NonceState) : List Char := Json.dumps Json.spaced (.obj s.fields)

/-- `nonce_is_consumed` on the file. -/
def reportsConsumed [StampText] (nonce : String) (now : ℤ) (raw : List Char) : Prop :=
  ∃ state, readState raw = some state ∧ ∃ nonces, Entries.get? state "nonces" = some (.obj nonces) ∧
    ∃ e ∈ nonces, e.1 = nonce ∧ kept now (StampText.stamp e.2) = true

/-! ## Crashes -/

/-- Where the process dies in `_write_nonce_state`. -/
inductive CrashPoint
  | beforeTruncate
  /-- After the truncate, with that many characters of the new text in the file. -/
  | written (count : ℕ)

/-- The text that the crash leaves. -/
def leftBehind (old : List Char) (new : NonceState) : CrashPoint → List Char
  | .beforeTruncate => old
  | .written count => new.text.take count

/-- The next operation sees the old or the new state, and a nonce that is consumed in both is
reported as consumed. -/
structure CrashAtomic [StampText] (old : List Char) (new : NonceState) (crash : CrashPoint) :
    Prop where
  state : readState (leftBehind old new crash) = readState old ∨
    readState (leftBehind old new crash) = readState new.text
  consumed : ∀ nonce now, reportsConsumed nonce now old → reportsConsumed nonce now new.text →
    reportsConsumed nonce now (leftBehind old new crash)

/-- The crash does not fall between the truncate and the last character, or one of the states is the
empty one. -/
def Survives (old : List Char) (new : NonceState) : CrashPoint → Prop
  | .beforeTruncate => True
  | .written count => new.text.length ≤ count ∨ readState old = some emptyState ∨
      readState new.text = some emptyState

/-! ## Torn texts -/

omit [Json.FloatReader] in
/-- A part of the text is no text of a value. -/
theorem parse_take (s : NonceState) {count : ℕ} (hcount : count < s.text.length) :
    Json.parse (s.text.take count) = none :=
  Json.parse_take_dumps Json.spaced_readable (.obj s.distinct.keys s.distinct.values) hcount

/-- A ledger whose text is torn is read as the empty one. -/
theorem readState_take (s : NonceState) {count : ℕ} (hcount : count < s.text.length) :
    readState (s.text.take count) = some emptyState := by
  unfold readState
  split
  · rfl
  · rw [Json.loads, parse_take s hcount]
    rfl

/-- The state is read back as it was written. -/
theorem readState_text (s : NonceState) (hread : (Value.obj s.fields).read = .obj s.fields) :
    readState s.text = some (normalized s.fields) := by
  have hloads : Json.loads s.text = some (.obj s.fields) :=
    Json.loads_dumps Json.spaced_readable (.obj s.distinct.keys s.distinct.values) hread
  have hblank : PyText.blank (.ofList s.text) = false := by
    obtain ⟨cs, hcs⟩ := Json.dumps_obj_head Json.spaced s.fields
    rw [PyText.blank_eq_false_iff, NonceState.text, hcs, String.toList_ofList]
    exact ⟨'\x7b', List.mem_cons_self, by decide⟩
  unfold readState
  rw [hblank, hloads]
  rfl

/-- A crash is atomic exactly when it does not tear the text, or the empty ledger, which a torn text
is read as, is the old or the new one. -/
theorem crashAtomic_iff [StampText] (old : List Char) (new : NonceState) (crash : CrashPoint) :
    CrashAtomic old new crash ↔ Survives old new crash := by
  cases crash with
  | beforeTruncate => exact ⟨fun _ => trivial, fun _ => ⟨.inl rfl, fun _ _ h _ => h⟩⟩
  | written count =>
      by_cases hcount : new.text.length ≤ count
      · have hleft : leftBehind old new (.written count) = new.text :=
          List.take_of_length_le hcount
        refine ⟨fun _ => .inl hcount, fun _ => ⟨?_, ?_⟩⟩ <;> rw [hleft]
        · exact .inr rfl
        · exact fun _ _ _ h => h
      · have hleft : readState (leftBehind old new (.written count)) = some emptyState :=
          readState_take new (by omega)
        constructor
        · rintro ⟨hstate, -⟩
          rw [hleft] at hstate
          exact .inr (hstate.imp Eq.symm Eq.symm)
        · intro hsurvives
          have hempty := hsurvives.resolve_left hcount
          refine ⟨?_, fun nonce now hold hnew => ?_⟩
          · rw [hleft]
            exact hempty.imp Eq.symm Eq.symm
          · unfold reportsConsumed at hold hnew ⊢
            rw [hleft]
            rcases hempty with h | h
            · rw [h] at hold
              exact hold
            · rw [h] at hnew
              exact hnew

end

section SampleCrash

/-- Every literal is read as it stands. -/
local instance sampleFloats : Json.FloatReader := ⟨.float⟩

/-- Every stamp is read as time 0. -/
local instance sampleStamps : StampText := ⟨fun _ => some 0⟩

/-- The nonce `n` has been consumed. -/
def consumedNonces : Value := .obj [("n", .str "1970-01-01T00:00:00Z")]

def sampleEntry : Value :=
  .obj [("at", .str "1970-01-01T01:00:00Z"), ("repo", .str "o/r"), ("pr", .str "1"),
    ("digest", .str "sha256:d"), ("base_body_digest", .str "sha256:b"),
    ("merged_body_digest", .str "sha256:m"), ("remote_applied", .bool false)]

theorem consumedNonces_distinct : consumedNonces.DistinctKeys :=
  .obj (by decide) (by simpa using .str _)

theorem sampleEntry_distinct : sampleEntry.DistinctKeys :=
  .obj (by decide) (by simp [Value.DistinctKeys.str, Value.DistinctKeys.bool])

def consumedState : NonceState where
  fields := [("nonces", consumedNonces), ("reservations", .obj [])]
  distinct := ⟨by decide, by simpa using ⟨consumedNonces_distinct, .obj (by decide) (by simp)⟩⟩

/-- The ledger with a reservation of the nonce `m`. -/
def reservedState : NonceState where
  fields := [("nonces", consumedNonces), ("reservations", .obj [("m", sampleEntry)])]
  distinct := ⟨by decide, by simpa using
    ⟨consumedNonces_distinct, .obj (by decide) (by simpa using sampleEntry_distinct)⟩⟩

/-- The next reservation is torn, and the consumed nonce is forgotten. -/
theorem not_crashAtomic_torn : ¬CrashAtomic consumedState.text reservedState (.written 12) := by
  intro h
  have hold : reportsConsumed "n" 0 consumedState.text :=
    ⟨_, readState_text consumedState rfl, _, rfl, _, List.mem_singleton_self _, rfl, by decide⟩
  have hnew : reportsConsumed "n" 0 reservedState.text :=
    ⟨_, readState_text reservedState rfl, _, rfl, _, List.mem_singleton_self _, rfl, by decide⟩
  obtain ⟨state, hstate, nonces, hnonces, e, he, -⟩ := h.consumed "n" 0 hold hnew
  have hleft : readState (leftBehind consumedState.text reservedState (.written 12)) =
      some emptyState := readState_take reservedState (by decide +kernel)
  rw [hleft] at hstate
  cases hstate
  cases hnonces
  cases he

end SampleCrash

end Perpetua.Grant

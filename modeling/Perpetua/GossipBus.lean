import Perpetua.Redaction

/-!
# The gossip bus

The append-only event table of `orchestrator/gossip_bus.py`. The rows stand in the order of their
ids. `payload_json` is the JSON text of the durable payload, and the model keeps the payload.
-/

namespace Perpetua.GossipBus

/-- A payload: the fields of a JSON object. -/
abbrev Payload := List (String × Json.Value)

/-- A row of `gossip`. -/
structure GossipRow (τ : Type) where
  eventUuid : String
  ts : τ
  eventType : String
  payload : Payload

abbrev GossipLog (τ : Type) := List (GossipRow τ)

variable {τ : Type} [Redaction.UnicodeTables]

/-- What of a payload is stored: redacted, and without the markers that `classify_and_redact` adds. -/
def durablePayload (payload : Payload) : Payload :=
  Entries.erase (Entries.erase (Redaction.redactMapping payload) "_memory_class")
    "_redaction_applied"

/-- `insert_event`: `INSERT OR IGNORE` on the event uuid. The flag tells whether a row was added. -/
def insertEvent (eventUuid : String) (ts : τ) (eventType : String) (payload : Payload)
    (log : GossipLog τ) : GossipLog τ × Bool :=
  if log.any (·.eventUuid = eventUuid) then (log, false)
  else (log ++ [⟨eventUuid, ts, eventType, durablePayload payload⟩], true)

theorem get?_durablePayload (payload : Payload) (k : String) :
    Entries.get? (durablePayload payload) k =
      if k = "_redaction_applied" ∨ k = "_memory_class" then none
      else (Entries.get? payload k).map fun v =>
        if k ∈ Redaction.credentialKeys then .str Redaction.redactedMarker
        else Redaction.redactValue v := by
  rw [durablePayload, Entries.get?_erase, Entries.get?_erase, Redaction.get?_redactMapping]
  by_cases ha : k = "_redaction_applied"
  · rw [if_pos ha, if_pos (Or.inl ha)]
  · by_cases hm : k = "_memory_class"
    · rw [if_neg ha, if_pos hm, if_pos (Or.inr hm)]
    · rw [if_neg ha, if_neg hm, if_neg (not_or.mpr ⟨ha, hm⟩)]

theorem nodup_durablePayload {payload : Payload} (h : (payload.map Prod.fst).Nodup) :
    ((durablePayload payload).map Prod.fst).Nodup :=
  Entries.nodup_erase (Entries.nodup_erase (by rwa [Redaction.keys_redactMapping]) _) _

end Perpetua.GossipBus

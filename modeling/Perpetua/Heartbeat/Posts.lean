import Perpetua.Heartbeat.Monitor

/-!
# What a post adds

One `emit` of a heartbeat adds one row, if the database lets it and its event uuid is new.
-/

namespace Perpetua.Heartbeat

open GossipBus Queue

variable {τ : Type} [Redaction.UnicodeTables]

/-- The post is granted under an event uuid that the log does not have. -/
def Adds (env : WriteEnv τ) (log : GossipLog τ) : Prop :=
  env.access = .granted ∧ ∀ old ∈ log, old.eventUuid ≠ env.uuid

instance (env : WriteEnv τ) (log : GossipLog τ) : Decidable (Adds env log) :=
  inferInstanceAs (Decidable (_ ∧ _))

theorem emit_getD (payload : Payload) (env : WriteEnv τ) (log : GossipLog τ) :
    (emit payload env log).getD log =
      if Adds env log then log ++ [⟨env.uuid, env.now, "heartbeat", durablePayload payload⟩]
      else log := by
  unfold emit
  cases haccess : env.access with
  | granted =>
      by_cases hfresh : log.any (·.eventUuid = env.uuid)
      · have hadds : ¬ Adds env log := by
          obtain ⟨old, hold, huuid⟩ := List.any_eq_true.mp hfresh
          exact fun h => h.2 old hold (of_decide_eq_true huuid)
        simp [insertEvent, hfresh, hadds]
      · have hadds : Adds env log := ⟨haccess, by simpa using hfresh⟩
        simp [insertEvent, hfresh, hadds]
  | busy | failed => simp [Adds, haccess]

theorem emit_granted {env : WriteEnv τ} (h : env.access = .granted) (payload : Payload)
    (log : GossipLog τ) : emit payload env log = some ((emit payload env log).getD log) := by
  rw [emit, h]
  rfl

theorem emit_not_granted {env : WriteEnv τ} (h : env.access ≠ .granted) (payload : Payload)
    (log : GossipLog τ) : emit payload env log = none := by
  unfold emit
  cases haccess : env.access with
  | granted => exact absurd haccess h
  | busy | failed => rfl

/-- What an `emit` adds to the log. -/
theorem emit_added {payload : Payload} {env : WriteEnv τ} {log : GossipLog τ} {row : GossipRow τ}
    (h : (emit payload env log).getD log = log ++ [row]) :
    Adds env log ∧ row = ⟨env.uuid, env.now, "heartbeat", durablePayload payload⟩ := by
  rw [emit_getD] at h
  split at h
  · rename_i hadds
    exact ⟨hadds, (List.singleton_inj.mp (List.append_cancel_left h)).symm⟩
  · simp at h

end Perpetua.Heartbeat

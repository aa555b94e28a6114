import Mathlib.Data.List.Forall2
import Mathlib.Tactic.Linarith
import Perpetua.Budget.Ledger

/-!
# The lifecycle of a budget run

What a call can do to a row is one transition of an abstract machine on runs. Every operation of the
ledger moves each row by at most one such transition (`step_runs`), so a fact about the amounts of
a run is proved once for the transitions.
-/

namespace Perpetua.Budget

variable {τ : Type}

/-! ## Transitions of one run -/

/-- One transition of a run. Only the state, the two amounts and the update time change. -/
inductive Transition : BudgetRun τ → BudgetRun τ → Prop
  | dispatch {r} (now : τ) : r.state = .reserved → Transition r (r.dispatch now)
  | settle {r} (s : Int) (now : τ) : r.state.terminal = false → (0 ≤ r.heldMicrousd → 0 ≤ s) →
      s ≤ r.heldMicrousd → Transition r (r.settle s now)
  | release {r} (now : τ) : r.state = .reserved → Transition r (r.release now)
  | consume {r} (now : τ) : r.state.terminal = false → Transition r (r.consume now)

/-- A row before and after a call: the same row, or one transition of it. -/
def Moves (r r' : BudgetRun τ) : Prop := r' = r ∨ Transition r r'

theorem Moves.refl (r : BudgetRun τ) : Moves r r := Or.inl rfl

/-- The columns `reserve` writes and no other operation touches. -/
structure SameRun (r r' : BudgetRun τ) : Prop where
  runId : r'.runId = r.runId
  keyDigest : r'.keyDigest = r.keyDigest
  fingerprint : r'.fingerprint = r.fingerprint
  utcDay : r'.utcDay = r.utcDay

theorem Moves.sameRun {r r' : BudgetRun τ} (h : Moves r r') : SameRun r r' := by
  rcases h with rfl | h
  · exact ⟨rfl, rfl, rfl, rfl⟩
  · cases h <;> exact ⟨rfl, rfl, rfl, rfl⟩

theorem Moves.of_terminal {r r' : BudgetRun τ} (h : Moves r r') (ht : r.state.terminal) : r' = r := by
  rcases h with rfl | h
  · rfl
  · cases h with
    | dispatch _ hs => simp [hs, RunState.terminal] at ht
    | settle _ _ hs _ _ => simp [hs] at ht
    | release _ hs => simp [hs, RunState.terminal] at ht
    | consume _ hs => simp [hs] at ht

/-- The amounts of a run reserved with worst case `w`. -/
structure WithinWorstCase (w : Int) (r : BudgetRun τ) : Prop where
  held_nonneg : 0 ≤ r.heldMicrousd
  settled_nonneg : 0 ≤ r.settledMicrousd
  settled_le : r.settledMicrousd ≤ w
  /-- The whole worst case is held until the run ends, and nothing after. -/
  held_eq : r.heldMicrousd = if r.state.terminal then 0 else w
  unsettled : r.state.terminal = false → r.settledMicrousd = 0
  consumed : r.state = .consumedUnknown → r.settledMicrousd = w

theorem WithinWorstCase.held_of_open {w : Int} {r : BudgetRun τ} (h : WithinWorstCase w r)
    (ht : r.state.terminal = false) : r.heldMicrousd = w := by
  rw [h.held_eq, ht, if_neg Bool.false_ne_true]

theorem WithinWorstCase.held_of_terminal {w : Int} {r : BudgetRun τ} (h : WithinWorstCase w r)
    (ht : r.state.terminal) : r.heldMicrousd = 0 := by
  rw [h.held_eq, if_pos ht]

theorem Moves.withinWorstCase {w : Int} {r r' : BudgetRun τ} (h : Moves r r')
    (hr : WithinWorstCase w r) : WithinWorstCase w r' := by
  rcases h with rfl | h
  · exact hr
  · cases h with
    | dispatch _ hs =>
        have hopen : r.state.terminal = false := by rw [hs]; rfl
        exact ⟨hr.held_nonneg, hr.settled_nonneg, hr.settled_le, hr.held_of_open hopen,
          fun _ => hr.unsettled hopen, nofun⟩
    | settle s _ hs hnn hle =>
        exact ⟨le_rfl, hnn hr.held_nonneg, hle.trans (hr.held_of_open hs).le, rfl, nofun, nofun⟩
    | release _ hs => exact ⟨le_rfl, hr.settled_nonneg, hr.settled_le, rfl, nofun, nofun⟩
    | consume _ hs =>
        exact ⟨le_rfl, hr.held_nonneg, (hr.held_of_open hs).le, rfl, nofun,
          fun _ => hr.held_of_open hs⟩

/-! ## What a run counts -/

/-- What a run counts against `day`. -/
def BudgetRun.charge (r : BudgetRun τ) (day : String) : Int :=
  if r.utcDay = day && r.state.counted then r.heldMicrousd + r.settledMicrousd else 0

theorem BudgetRun.charge_of_counted {r : BudgetRun τ} {day : String} (hd : r.utcDay = day)
    (hc : r.state.counted) : r.charge day = r.heldMicrousd + r.settledMicrousd := by
  rw [charge, if_pos (by simp [hd, hc])]

theorem BudgetRun.charge_of_other_day {r : BudgetRun τ} {day : String} (hd : r.utcDay ≠ day) :
    r.charge day = 0 := by
  rw [charge, if_neg (by simp [hd])]

theorem BudgetRun.charge_release (r : BudgetRun τ) (now : τ) (day : String) :
    (r.release now).charge day = 0 := by
  simp [charge, release, RunState.counted]

theorem RunState.counted_of_open {s : RunState} (h : s.terminal = false) : s.counted := by
  cases s <;> first | rfl | cases h

/-- No transition raises what a run counts. -/
theorem Moves.charge_le {w : Int} {r r' : BudgetRun τ} (h : Moves r r')
    (hr : WithinWorstCase w r) (day : String) : r'.charge day ≤ r.charge day := by
  by_cases hd : r.utcDay = day
  · have hd' : r'.utcDay = day := h.sameRun.utcDay.trans hd
    rcases h with rfl | h
    · exact le_rfl
    · cases h with
      | dispatch _ hs =>
          rw [BudgetRun.charge_of_counted hd' rfl, BudgetRun.charge_of_counted hd (by rw [hs]; rfl)]
          exact le_rfl
      | settle s _ hs _ hle =>
          rw [BudgetRun.charge_of_counted hd' rfl,
            BudgetRun.charge_of_counted hd (RunState.counted_of_open hs), hr.unsettled hs]
          simpa [BudgetRun.settle] using hle
      | release _ hs =>
          rw [BudgetRun.charge_of_counted hd (by rw [hs]; rfl), BudgetRun.charge_release]
          exact add_nonneg hr.held_nonneg hr.settled_nonneg
      | consume _ hs =>
          rw [BudgetRun.charge_of_counted hd' rfl,
            BudgetRun.charge_of_counted hd (RunState.counted_of_open hs), hr.unsettled hs]
          simp [BudgetRun.consume]
  · rw [BudgetRun.charge_of_other_day hd, BudgetRun.charge_of_other_day (h.sameRun.utcDay ▸ hd)]

end Perpetua.Budget

import Mathlib.Algebra.Order.BigOperators.Group.List
import Mathlib.Data.List.Induction
import Perpetua.Budget.Lemmas.Effects

/-!
# Invariants of the ledger over runs

The worst case of a run is not a column, so it is recovered from the history: `ReservedWith` names
the call that inserted the row.
-/

namespace Perpetua.Budget

variable {τ : Type}

/-! ## The counted amounts -/

theorem used_eq_charges (db : LedgerDb τ) (day : String) :
    db.used day = (db.runs.map (·.charge day)).sum := by
  unfold LedgerDb.used LedgerDb.countedOn
  induction db.runs with
  | nil => rfl
  | cons r rs ih =>
      simp only [List.filter_cons, List.map_cons, List.sum_cons, BudgetRun.charge]
      split
      · rw [List.map_cons, List.sum_cons, ih]; rfl
      · rw [ih, zero_add]; rfl

theorem MovesRuns.used_le {db db' : LedgerDb τ} (h : MovesRuns db db')
    (hr : ∀ r ∈ db.runs, ∃ w, WithinWorstCase w r) (day : String) : db'.used day ≤ db.used day := by
  obtain ⟨g, hg, hmoves⟩ := h
  rw [used_eq_charges, used_eq_charges, hg, List.map_map]
  refine List.sum_le_sum fun r hmem => ?_
  obtain ⟨w, hw⟩ := hr r hmem
  exact (hmoves r hmem).charge_le hw day

theorem MovesRuns.runIds {db db' : LedgerDb τ} (h : MovesRuns db db') :
    db'.runs.map (·.runId) = db.runs.map (·.runId) := by
  obtain ⟨g, hg, hmoves⟩ := h
  rw [hg, List.map_map]
  exact List.map_congr_left fun r hr => (hmoves r hr).sameRun.runId

theorem MovesRuns.mem {db db' : LedgerDb τ} (h : MovesRuns db db') {r' : BudgetRun τ}
    (hr' : r' ∈ db'.runs) : ∃ r ∈ db.runs, Moves r r' := by
  obtain ⟨g, hg, hmoves⟩ := h
  obtain ⟨r, hr, rfl⟩ := List.mem_map.mp (hg ▸ hr')
  exact ⟨r, hr, hmoves r hr⟩

theorem MovesRuns.mem_of_terminal {db db' : LedgerDb τ} (h : MovesRuns db db') {r : BudgetRun τ}
    (hr : r ∈ db.runs) (ht : r.state.terminal) : r ∈ db'.runs := by
  obtain ⟨g, hg, hmoves⟩ := h
  rw [hg]
  exact List.mem_map.mpr ⟨r, hr, (hmoves r hr).of_terminal ht⟩

theorem findRun_eq_none {db : LedgerDb τ} {runId : String} :
    db.findRun runId = none ↔ runId ∉ db.runs.map (·.runId) := by
  simp [LedgerDb.findRun]

variable {L : Tier5BudgetLedger} {digest : String → String}

/-- A fresh row is within its worst case. -/
theorem Inserts.withinWorstCase {db : LedgerDb τ} {a : ReserveArgs} {row : BudgetRun τ}
    (h : Inserts L digest db a row) : WithinWorstCase a.worstCaseMicrousd row where
  held_nonneg := by rw [h.held]; exact h.positive.le
  settled_nonneg := h.settled.ge
  settled_le := by rw [h.settled]; exact h.positive.le
  held_eq := by rw [h.held, h.state]; rfl
  unsettled := fun _ => h.settled
  consumed := fun hc => by rw [h.state] at hc; cases hc

theorem Inserts.runIds {db : LedgerDb τ} {a : ReserveArgs} {row : BudgetRun τ}
    (h : Inserts L digest db a row) (hn : (db.runs.map (·.runId)).Nodup) :
    ((db.runs ++ [row]).map (·.runId)).Nodup := by
  rw [List.map_append]
  refine List.nodup_append.mpr ⟨hn, List.nodup_singleton _, ?_⟩
  rintro x hx y hy rfl
  rw [List.map_singleton, List.mem_singleton, h.runId] at hy
  exact findRun_eq_none.mp h.newRun (hy ▸ hx)

/-! ## The history of a run -/

section History

variable [LT τ] [DecidableLT τ]

variable (L digest) in
/-- Among `calls` is the `reserve` that inserted the run `runId`, with worst case `w`. -/
def ReservedWith (calls : List (Call τ)) (runId : String) (w : Int) : Prop :=
  ∃ pre c post a row, calls = pre ++ c :: post ∧ c.op = .reserve a ∧
    a.runId = runId ∧ a.worstCaseMicrousd = w ∧
    Inserts L digest (runCalls L digest pre) a row ∧
    runCalls L digest (pre ++ [c]) =
      { runCalls L digest pre with runs := (runCalls L digest pre).runs ++ [row] }

variable (L digest) in
/-- What holds of the tables after any sequence of calls. -/
structure Sound (calls : List (Call τ)) : Prop where
  runIds : ((runCalls L digest calls).runs.map (·.runId)).Nodup
  amounts : ∀ r ∈ (runCalls L digest calls).runs,
    ∃ w, ReservedWith L digest calls r.runId w ∧ WithinWorstCase w r
  within : ∀ day, (runCalls L digest calls).used day ≤ L.dailyLimitMicrousd

theorem ReservedWith.append {calls : List (Call τ)} {runId : String} {w : Int}
    (h : ReservedWith L digest calls runId w) (more : List (Call τ)) :
    ReservedWith L digest (calls ++ more) runId w := by
  obtain ⟨pre, c, post, a, row, rfl, hop, hid, hw, hins, hrun⟩ := h
  exact ⟨pre, c, post ++ more, a, row, by simp, hop, hid, hw, hins, hrun⟩

theorem runCalls_concat (calls : List (Call τ)) (c : Call τ) :
    runCalls L digest (calls ++ [c]) = step L digest (runCalls L digest calls) c := by
  simp [runCalls]

theorem Sound.empty : Sound (τ := τ) L digest [] := by
  refine ⟨List.nodup_nil, nofun, fun day => ?_⟩
  rw [used_eq_charges]
  exact L.positive.le

/-- The step of the invariant. -/
theorem Sound.concat {calls : List (Call τ)} (h : Sound L digest calls) (c : Call τ) :
    Sound L digest (calls ++ [c]) := by
  rcases step_runs L digest c h.runIds with hmoves | ⟨a, row, hop, hins, hstep⟩
  · rw [← runCalls_concat] at hmoves
    refine ⟨hmoves.runIds ▸ h.runIds, fun r' hr' => ?_, fun day => ?_⟩
    · obtain ⟨r, hr, hm⟩ := hmoves.mem hr'
      obtain ⟨w, hres, hw⟩ := h.amounts r hr
      exact ⟨w, hm.sameRun.runId ▸ hres.append [c], hm.withinWorstCase hw⟩
    · exact (hmoves.used_le (fun r hr => (h.amounts r hr).imp fun _ => And.right) day).trans
        (h.within day)
  · rw [← runCalls_concat] at hstep
    have hruns : (runCalls L digest (calls ++ [c])).runs =
        (runCalls L digest calls).runs ++ [row] := by rw [hstep]
    refine ⟨?_, fun r hr => ?_, fun day => ?_⟩
    · rw [hruns]; exact hins.runIds h.runIds
    · rw [hruns, List.mem_append, List.mem_singleton] at hr
      rcases hr with hr | rfl
      · obtain ⟨w, hres, hw⟩ := h.amounts r hr
        exact ⟨w, hres.append [c], hw⟩
      · exact ⟨a.worstCaseMicrousd,
          ⟨calls, c, [], a, r, rfl, hop, hins.runId.symm, rfl, hins, hstep⟩, hins.withinWorstCase⟩
    · have hused := used_eq_charges (runCalls L digest (calls ++ [c])) day
      rw [hruns, List.map_append, List.sum_append, ← used_eq_charges, List.map_singleton,
        List.sum_singleton] at hused
      rw [hused]
      by_cases hd : a.day = day
      · rw [BudgetRun.charge_of_counted (hins.utcDay.trans hd) (by rw [hins.state]; rfl), hins.held,
          hins.settled, add_zero, ← hd]
        exact hins.fits
      · rw [BudgetRun.charge_of_other_day (hins.utcDay ▸ hd), add_zero]
        exact h.within day

theorem sound (calls : List (Call τ)) : Sound L digest calls := by
  induction calls using List.reverseRecOn with
  | nil => exact .empty
  | append_singleton calls c ih => exact ih.concat c

/-- The rows are keyed by their run id. -/
theorem findRun_of_mem {calls : List (Call τ)} {r : BudgetRun τ}
    (hr : r ∈ (runCalls L digest calls).runs) :
    (runCalls L digest calls).findRun r.runId = some r := by
  cases hfind : (runCalls L digest calls).findRun r.runId with
  | none => exact absurd (List.mem_map.mpr ⟨r, hr, rfl⟩) (findRun_eq_none.mp hfind)
  | some s =>
      obtain ⟨hs, hid⟩ := findRun_eq_some hfind
      rw [mem_eq_of_runId (sound calls).runIds hs hr hid]

/-- A run id, once taken, stays taken. -/
theorem runId_step {db : LedgerDb τ} (hn : (db.runs.map (·.runId)).Nodup) {runId : String}
    (h : runId ∈ db.runs.map (·.runId)) (c : Call τ) :
    runId ∈ (step L digest db c).runs.map (·.runId) := by
  rcases step_runs L digest c hn with hmoves | ⟨a, row, _, _, hstep⟩
  · rw [hmoves.runIds]; exact h
  · rw [hstep, List.map_append]; exact List.mem_append_left _ h

theorem runId_stays {calls : List (Call τ)} {runId : String}
    (h : runId ∈ (runCalls L digest calls).runs.map (·.runId)) (more : List (Call τ)) :
    runId ∈ (runCalls L digest (calls ++ more)).runs.map (·.runId) := by
  induction more using List.reverseRecOn with
  | nil => simpa using h
  | append_singleton more c ih =>
      rw [← List.append_assoc, runCalls_concat]
      exact runId_step (sound (calls ++ more)).runIds ih c

theorem ReservedWith.taken {calls : List (Call τ)} {runId : String} {w : Int}
    (h : ReservedWith L digest calls runId w) :
    runId ∈ (runCalls L digest calls).runs.map (·.runId) := by
  obtain ⟨pre, c, post, a, row, rfl, _, hid, _, hins, hrun⟩ := h
  rw [List.append_cons]
  refine runId_stays ?_ post
  rw [hrun, ← hid, ← hins.runId]
  simp

theorem ReservedWith.of_concat {calls : List (Call τ)} {c : Call τ} {runId : String} {w : Int}
    (h : ReservedWith L digest (calls ++ [c]) runId w) :
    ReservedWith L digest calls runId w ∨
      runId ∉ (runCalls L digest calls).runs.map (·.runId) ∧
        ∃ a, c.op = .reserve a ∧ a.worstCaseMicrousd = w := by
  obtain ⟨pre, d, post, a, row, hcalls, hop, hid, hw, hins, hrun⟩ := h
  rcases List.eq_nil_or_concat post with rfl | ⟨post, e, rfl⟩
  · obtain ⟨rfl, hd⟩ := List.append_inj' hcalls rfl
    cases hd
    exact Or.inr ⟨findRun_eq_none.mp (hid ▸ hins.newRun), a, hop, hw⟩
  · rw [List.concat_eq_append, ← List.cons_append, ← List.append_assoc] at hcalls
    obtain ⟨rfl, -⟩ := List.append_inj' hcalls rfl
    exact Or.inl ⟨pre, d, post, a, row, rfl, hop, hid, hw, hins, hrun⟩

/-- A run is reserved once, so its worst case is one amount. -/
theorem ReservedWith.unique {calls : List (Call τ)} {runId : String} {w w' : Int}
    (h : ReservedWith L digest calls runId w) (h' : ReservedWith L digest calls runId w') :
    w = w' := by
  induction calls using List.reverseRecOn with
  | nil =>
      obtain ⟨pre, c, post, _, _, hnil, _⟩ := h
      simp at hnil
  | append_singleton calls c ih =>
      rcases h.of_concat with hold | ⟨hnew, a, hop, rfl⟩ <;>
        rcases h'.of_concat with hold' | ⟨hnew', a', hop', rfl⟩
      · exact ih hold hold'
      · exact absurd hold.taken hnew'
      · exact absurd hold'.taken hnew
      · rw [hop] at hop'
        cases hop'
        rfl

/-- A terminal row stays as it is. -/
theorem terminal_stays {calls : List (Call τ)} {r : BudgetRun τ}
    (hr : r ∈ (runCalls L digest calls).runs) (ht : r.state.terminal) (more : List (Call τ)) :
    r ∈ (runCalls L digest (calls ++ more)).runs := by
  induction more using List.reverseRecOn with
  | nil => simpa using hr
  | append_singleton more c ih =>
      rw [← List.append_assoc, runCalls_concat]
      rcases step_runs L digest c (sound (calls ++ more)).runIds with
        hmoves | ⟨a, row, _, _, hstep⟩
      · exact hmoves.mem_of_terminal ih ht
      · rw [hstep]; exact List.mem_append_left _ ih

end History

end Perpetua.Budget

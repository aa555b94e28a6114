import Perpetua.Budget.Lemmas.Invariants

/-!
# Stage markers over runs

Only a `mark_dispatch` that returns adds a marker. Whether a marked run stays counted depends on the
state it is marked in: `Guarded` is what holds as long as no marker is added to a released run.
-/

namespace Perpetua.Budget

variable {τ : Type}

/-! ## What a call does to the markers -/

theorem guardedTransaction_stages {α : Type} {env : CallEnv τ} {db : LedgerDb τ}
    {body : LedgerDb τ → Except LedgerError (LedgerDb τ × α)}
    (h : ∀ db' a, body db = .ok (db', a) → db'.stages = db.stages) :
    (guardedTransaction env db body).1.stages = db.stages := by
  rcases guardedTransaction_cases env db body with ⟨e, he⟩ | ⟨db', a, _, hbody, he⟩
  · rw [he]
  · rw [he]; exact h db' a hbody

theorem settleBody_stages {now : τ} {runId : String} {unused : Option Int} {db db' : LedgerDb τ}
    {res : Reservation} (h : settleBody now runId unused db = .ok (db', res)) :
    db'.stages = db.stages := by
  unfold settleBody at h
  split at h
  · cases h
  split at h <;> (cases h; rfl)

theorem releasePreDispatchBody_stages {now : τ} {runId : String} {db db' : LedgerDb τ}
    {res : Reservation} (h : releasePreDispatchBody now runId db = .ok (db', res)) :
    db'.stages = db.stages := by
  unfold releasePreDispatchBody at h
  split at h
  · cases h
  split at h
  · cases h
  split at h
  · cases h
  cases h; rfl

theorem recoverExpiredBody_stages [LT τ] [DecidableLT τ] {clock : ℕ → τ} {before : τ}
    {db db' : LedgerDb τ} {n : ℕ × ℕ}
    (h : recoverExpiredBody clock before db = .ok (db', n)) : db'.stages = db.stages := by
  simp only [recoverExpiredBody, Except.ok.injEq, Prod.mk.injEq] at h
  rw [← h.1, updateEach_stages, updateEach_stages]

section Step

variable [LT τ] [DecidableLT τ] {L : Tier5BudgetLedger} {digest : String → String}

/-- `mark_dispatch(run_id, stage_name)` returns normally and inserts a new marker. -/
def MarksNew (db : LedgerDb τ) (c : Call τ) (runId stageName : String) : Prop :=
  c.op = .markDispatch runId stageName ∧ (markDispatch c.env runId stageName db).2 = .ok () ∧
    db.isStageMarked runId stageName = false

variable (L digest) in
/-- A marker that a call inserts, and the rows after it. -/
theorem MarksNew.step_eq {db : LedgerDb τ} {c : Call τ} {runId stageName : String}
    (h : MarksNew db c runId stageName) :
    (∃ row ∈ db.runs, row.runId = runId) ∧
      step L digest db c =
        ({ db with stages := db.stages ++ [⟨runId, stageName, c.env.clock 0⟩] } : LedgerDb τ).updateRuns
          (fun r => r.runId = runId && r.state = .reserved) (·.dispatch (c.env.clock 1)) := by
  obtain ⟨hop, hok, hnew⟩ := h
  simp only [step, hop]
  rcases guardedTransaction_cases c.env db (markDispatchBody c.env.clock runId stageName) with
    ⟨e, he⟩ | ⟨db', u, _, hbody, he⟩
  · rw [markDispatch, he] at hok; cases hok
  · rw [markDispatch, he]
    unfold markDispatchBody at hbody
    split at hbody
    · cases hbody
    · rename_i marked hmark
      cases hbody
      rcases insertMarker_cases hmark with ⟨_, hold⟩ | ⟨_, ⟨row, hrow⟩, rfl⟩
      · rw [hnew] at hold; cases hold
      · exact ⟨⟨row, findRun_eq_some hrow⟩, rfl⟩

variable (L digest) in
/-- What a call does to the markers. -/
theorem step_stages (c : Call τ) (db : LedgerDb τ) :
    (step L digest db c).stages = db.stages ∨ ∃ runId stageName, MarksNew db c runId stageName := by
  obtain ⟨env, op⟩ := c
  cases op with
  | reserve a =>
      simp only [step]
      rcases reserve_cases L digest env a db with ⟨he, _⟩ | ⟨row, _, he⟩ <;>
        (rw [he]; exact Or.inl rfl)
  | markDispatch runId stageName =>
      rcases guardedTransaction_cases env db (markDispatchBody env.clock runId stageName) with
        ⟨e, he⟩ | ⟨db', u, _, hbody, he⟩
      · left; simp only [step, markDispatch, he]
      · by_cases hnew : db.isStageMarked runId stageName = false
        · exact Or.inr ⟨runId, stageName, rfl, by simp only [markDispatch, he], hnew⟩
        · unfold markDispatchBody at hbody
          rw [insertMarker, if_pos (by simpa using hnew)] at hbody
          cases hbody
          left; simp only [step, markDispatch, he]; rfl
  | settle runId unused =>
      exact Or.inl (guardedTransaction_stages fun _ _ h => settleBody_stages h)
  | releasePreDispatch runId =>
      exact Or.inl (guardedTransaction_stages fun _ _ h => releasePreDispatchBody_stages h)
  | recoverExpired before =>
      exact Or.inl (guardedTransaction_stages fun _ _ h => recoverExpiredBody_stages h)

end Step

/-! ## Marked runs -/

/-- A run that has left RESERVED without being released. -/
def RunState.spent : RunState → Bool
  | .dispatched | .settled | .consumedUnknown => true
  | .reserved | .released => false

theorem Moves.spent {r r' : BudgetRun τ} (h : Moves r r') (hs : r.state.spent) : r'.state.spent := by
  rcases h with rfl | h
  · exact hs
  · cases h with
    | dispatch _ _ => rfl
    | settle _ _ _ _ _ => rfl
    | release _ hr => rw [hr] at hs; cases hs
    | consume _ _ => rfl

/-- The run `r`, reserved with worst case `w`, is counted against its day in full. -/
structure CountedInFull (w : Int) (r : BudgetRun τ) : Prop where
  state : r.state = .dispatched ∨
    (r.state = .settled ∨ r.state = .consumedUnknown) ∧ r.settledMicrousd = w
  charge : r.charge r.utcDay = w

/-- A counted run of worst case `w`, in the states a marker leaves it in. -/
theorem WithinWorstCase.countedInFull {w : Int} {r : BudgetRun τ} (h : WithinWorstCase w r)
    (hs : r.state.spent) (hfull : r.state = .settled → r.settledMicrousd = w) :
    CountedInFull w r := by
  cases hst : r.state with
  | reserved => rw [hst] at hs; cases hs
  | released => rw [hst] at hs; cases hs
  | dispatched =>
      refine ⟨Or.inl hst, ?_⟩
      rw [BudgetRun.charge_of_counted rfl (by rw [hst]; rfl), h.held_of_open (by rw [hst]; rfl),
        h.unsettled (by rw [hst]; rfl), add_zero]
  | settled =>
      refine ⟨Or.inr ⟨Or.inl hst, hfull hst⟩, ?_⟩
      rw [BudgetRun.charge_of_counted rfl (by rw [hst]; rfl), h.held_of_terminal (by rw [hst]; rfl),
        hfull hst, zero_add]
  | consumedUnknown =>
      refine ⟨Or.inr ⟨Or.inr hst, h.consumed hst⟩, ?_⟩
      rw [BudgetRun.charge_of_counted rfl (by rw [hst]; rfl), h.held_of_terminal (by rw [hst]; rfl),
        h.consumed hst, zero_add]

/-- Every marker belongs to a run. -/
def Owned (db : LedgerDb τ) : Prop := ∀ s ∈ db.stages, s.runId ∈ db.runs.map (·.runId)

/-- Every marker belongs to a run, and a marked run has been spent. -/
structure Guarded (db : LedgerDb τ) : Prop where
  owned : Owned db
  spent : ∀ r ∈ db.runs, db.hasStageMarkers r.runId → r.state.spent

theorem hasStageMarkers_iff {db : LedgerDb τ} {runId : String} :
    db.hasStageMarkers runId ↔ ∃ s ∈ db.stages, s.runId = runId := by
  simp [LedgerDb.hasStageMarkers]

section Mark

variable [LT τ] [DecidableLT τ] {L : Tier5BudgetLedger} {digest : String → String}

variable (L digest) in
theorem Owned.step {db : LedgerDb τ} (h : Owned db) (hn : (db.runs.map (·.runId)).Nodup)
    (c : Call τ) : Owned (step L digest db c) := by
  intro s hs
  refine runId_step hn ?_ c
  rcases step_stages L digest c db with he | ⟨runId, stageName, hm⟩
  · exact h s (he ▸ hs)
  · obtain ⟨⟨row, hrow, hid⟩, hstep⟩ := hm.step_eq L digest
    rw [hstep, LedgerDb.updateRuns, List.mem_append, List.mem_singleton] at hs
    rcases hs with hs | rfl
    · exact h s hs
    · exact List.mem_map.mpr ⟨row, hrow, hid⟩

theorem owned (calls : List (Call τ)) : Owned (runCalls L digest calls) := by
  induction calls using List.reverseRecOn with
  | nil => exact nofun
  | append_singleton calls c ih =>
      rw [runCalls_concat]
      exact ih.step L digest (sound calls).runIds c

variable (L digest) in
/-- The row of a run after its marker was inserted. -/
theorem MarksNew.mem_step {db : LedgerDb τ} {c : Call τ} {runId stageName : String}
    (h : MarksNew db c runId stageName) {r' : BudgetRun τ} :
    r' ∈ (step L digest db c).runs ↔ ∃ r ∈ db.runs,
      r' = if r.runId = runId ∧ r.state = .reserved then r.dispatch (c.env.clock 1) else r := by
  rw [(h.step_eq L digest).2, LedgerDb.updateRuns, List.mem_map]
  constructor
  · rintro ⟨r, hr, rfl⟩
    exact ⟨r, hr, by simp only [Bool.and_eq_true, decide_eq_true_eq]⟩
  · rintro ⟨r, hr, rfl⟩
    exact ⟨r, hr, by simp only [Bool.and_eq_true, decide_eq_true_eq]⟩

/-- A marker leaves the row of its run as it is, unless the run was reserved. -/
theorem MarksNew.findRun {pre : List (Call τ)} {c : Call τ} {runId stageName : String}
    (hm : MarksNew (runCalls L digest pre) c runId stageName) :
    ∃ r, (runCalls L digest pre).findRun runId = some r ∧
      (runCalls L digest (pre ++ [c])).findRun runId =
        some (if r.state = .reserved then r.dispatch (c.env.clock 1) else r) := by
  obtain ⟨⟨r, hr, rfl⟩, -⟩ := hm.step_eq L digest
  refine ⟨r, findRun_of_mem hr, ?_⟩
  have hmem := hm.mem_step L digest |>.mpr ⟨r, hr, rfl⟩
  rw [← runCalls_concat] at hmem
  simp only [true_and] at hmem
  have hid : (if r.state = .reserved then r.dispatch (c.env.clock 1) else r).runId = r.runId := by
    split <;> rfl
  rw [← findRun_of_mem hmem, hid]

/-- A call that inserts no marker keeps marked runs spent. -/
theorem Guarded.unmarked {db : LedgerDb τ} (h : Guarded db)
    (hn : (db.runs.map (·.runId)).Nodup) {c : Call τ}
    (hs : (step L digest db c).stages = db.stages) : Guarded (step L digest db c) := by
  refine ⟨h.owned.step L digest hn c, fun r' hr' hmark => ?_⟩
  rw [LedgerDb.hasStageMarkers, hs, ← LedgerDb.hasStageMarkers] at hmark
  rcases step_runs L digest c hn with hmoves | ⟨a, row, _, hins, hstep⟩
  · obtain ⟨r, hr, hm⟩ := hmoves.mem hr'
    exact hm.spent (h.spent r hr (hm.sameRun.runId ▸ hmark))
  · rw [hstep, List.mem_append, List.mem_singleton] at hr'
    rcases hr' with hr | rfl
    · exact h.spent r' hr hmark
    · -- A fresh run has no marker: its id was unknown, and every marker has a run.
      obtain ⟨s, hs, hid⟩ := hasStageMarkers_iff.mp hmark
      have := h.owned s hs
      rw [hid, hins.runId] at this
      exact absurd this (findRun_eq_none.mp hins.newRun)

/-- A marker added to a run that is not released keeps marked runs spent. -/
theorem Guarded.mark {db : LedgerDb τ} (h : Guarded db) (hn : (db.runs.map (·.runId)).Nodup)
    {c : Call τ} {runId stageName : String} (hm : MarksNew db c runId stageName)
    (hheld : ∀ r ∈ db.runs, r.runId = runId → r.state ≠ .released) :
    Guarded (step L digest db c) := by
  refine ⟨h.owned.step L digest hn c, fun r' hr' hmark => ?_⟩
  obtain ⟨r, hr, rfl⟩ := (hm.mem_step L digest).mp hr'
  split
  · rfl
  · rename_i hkept
    rw [if_neg hkept] at hmark
    by_cases hid : r.runId = runId
    · have hrel := hheld r hr hid
      cases hst : r.state with
      | reserved => exact absurd ⟨hid, hst⟩ hkept
      | released => exact absurd hst hrel
      | dispatched => rfl
      | settled => rfl
      | consumedUnknown => rfl
    · refine h.spent r hr ?_
      rw [LedgerDb.hasStageMarkers, (hm.step_eq L digest).2, LedgerDb.updateRuns,
        List.any_append] at hmark
      simpa [LedgerDb.hasStageMarkers, Ne.symm hid] using hmark

variable (L digest) in
/-- No call of the run inserts a marker for a run that is released. -/
def MarksUnreleased (calls : List (Call τ)) : Prop :=
  ∀ pre c post runId stageName, calls = pre ++ c :: post →
    MarksNew (runCalls L digest pre) c runId stageName →
      ∀ r ∈ (runCalls L digest pre).runs, r.runId = runId → r.state ≠ .released

theorem MarksUnreleased.prefix {pre post : List (Call τ)}
    (h : MarksUnreleased L digest (pre ++ post)) : MarksUnreleased L digest pre := by
  rintro pre' c post' runId stageName rfl
  exact h pre' c (post' ++ post) runId stageName (by simp)

/-- `Guarded` over a run. -/
theorem MarksUnreleased.guarded {calls : List (Call τ)} (h : MarksUnreleased L digest calls) :
    Guarded (runCalls L digest calls) := by
  induction calls using List.reverseRecOn with
  | nil => exact ⟨owned [], nofun⟩
  | append_singleton calls c ih =>
      have hg := ih h.prefix
      rw [runCalls_concat]
      rcases step_stages L digest c (runCalls L digest calls) with
        hs | ⟨runId, stageName, hm⟩
      · exact hg.unmarked (sound calls).runIds hs
      · exact hg.mark (sound calls).runIds hm (h calls c [] runId stageName rfl hm)

end Mark

end Perpetua.Budget

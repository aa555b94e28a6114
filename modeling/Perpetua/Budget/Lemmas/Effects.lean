import Mathlib.Data.List.Nodup
import Perpetua.Budget.Lemmas.Lifecycle

/-!
# What a call does to the tables

`step_runs` says once what a call can do to the runs: `reserve` appends a row, any other call moves
each row by at most one transition. `step_stages` says the same of the stage markers.
-/

namespace Perpetua.Budget

variable {τ : Type}

/-! ## Transactions -/

/-- A call that raises keeps the tables; one that returns leaves those of its transaction. -/
theorem guardedTransaction_cases {α : Type} (env : CallEnv τ) (db : LedgerDb τ)
    (body : LedgerDb τ → Except LedgerError (LedgerDb τ × α)) :
    (∃ e, guardedTransaction env db body = (db, .error e)) ∨
      ∃ db' a, env.access = .granted ∧ body db = .ok (db', a) ∧
        guardedTransaction env db body = (db', .ok a) := by
  unfold guardedTransaction
  cases env.access with
  | busy => exact Or.inl ⟨_, rfl⟩
  | failed => exact Or.inl ⟨_, rfl⟩
  | granted =>
      cases hbody : body db with
      | error e => exact Or.inl ⟨e, rfl⟩
      | ok p => exact Or.inr ⟨p.1, p.2, rfl, rfl, rfl⟩

/-! ## Reserving -/

/-- The amounts counted against a day. -/
def LedgerDb.used (db : LedgerDb τ) (day : String) : Int :=
  ((db.countedOn day).map fun r => r.heldMicrousd + r.settledMicrousd).sum

theorem sqliteSum_ok {ns : List Int} {acc v : Int} (h : sqliteSum acc ns = .ok v) :
    v = acc + ns.sum := by
  induction ns generalizing acc with
  | nil => simp only [sqliteSum, Except.ok.injEq] at h; simp [h]
  | cons n ns ih =>
      simp only [sqliteSum] at h
      split at h
      · rw [ih h, List.sum_cons, add_assoc]
      · cases h

/-- The row that `reserve` inserts into `db` for the arguments `a`. -/
structure Inserts (L : Tier5BudgetLedger) (digest : String → String) (db : LedgerDb τ)
    (a : ReserveArgs) (row : BudgetRun τ) : Prop where
  runId : row.runId = a.runId
  keyDigest : row.keyDigest = digest a.idempotencyKey
  utcDay : row.utcDay = a.day
  state : row.state = .reserved
  held : row.heldMicrousd = a.worstCaseMicrousd
  settled : row.settledMicrousd = 0
  positive : 0 < a.worstCaseMicrousd
  fits : db.used a.day + a.worstCaseMicrousd ≤ L.dailyLimitMicrousd
  newRun : db.findRun a.runId = none
  newKey : db.findKey (digest a.idempotencyKey) = none

variable {L : Tier5BudgetLedger} {digest : String → String}

theorem reserveBody_cases {now : τ} {a : ReserveArgs} {db db' : LedgerDb τ} {res : Reservation}
    (hpos : 0 < a.worstCaseMicrousd) (h : reserveBody L digest now a db = .ok (db', res)) :
    (db' = db ∧ ∃ row, db.findKey (digest a.idempotencyKey) = some row ∧ res = row.toReservation) ∨
      ∃ row, Inserts L digest db a row ∧ db' = { db with runs := db.runs ++ [row] } ∧
        res = row.toReservation := by
  unfold reserveBody at h
  split at h
  · rename_i existing hkey
    split at h
    · cases h
    · cases h; exact Or.inl ⟨rfl, existing, hkey, rfl⟩
  · rename_i hkey
    split at h
    · cases h
    · rename_i used hsum
      have hused : used = db.used a.day := by rw [sqliteSum_ok hsum, zero_add]; rfl
      simp only at h
      generalize hceil : a.explicitCapMicrousd.getD
        (L.dailyLimitMicrousd - used - microusdPerUsd) = ceiling at h
      generalize hcap : (if ceiling > L.dailyLimitMicrousd - used then L.dailyLimitMicrousd - used
        else ceiling) = policyCap at h
      -- The clamp: whatever ceiling was asked for, the policy cap is at most what remains.
      have hclamp : policyCap ≤ L.dailyLimitMicrousd - used := by
        rw [← hcap]; split <;> omega
      split at h
      · cases h
      · rename_i hcover
        split at h
        · cases h
        · split at h
          · cases h
          · rename_i hrun
            cases h
            refine Or.inr ⟨_, ⟨rfl, rfl, rfl, rfl, rfl, rfl, hpos, ?_, ?_, hkey⟩, rfl, rfl⟩
            · omega
            · simpa using hrun

variable (L digest) in
/-- `reserve` keeps the tables, with the stored run when it answers with one, or inserts a run. -/
theorem reserve_cases (env : CallEnv τ) (a : ReserveArgs) (db : LedgerDb τ) :
    ((reserve L digest env a db).1 = db ∧ ∀ res, (reserve L digest env a db).2 = .ok res →
      ∃ row, db.findKey (digest a.idempotencyKey) = some row ∧ res = row.toReservation) ∨
    ∃ row, Inserts L digest db a row ∧
      reserve L digest env a db = ({ db with runs := db.runs ++ [row] }, .ok row.toReservation) := by
  unfold reserve
  split
  · exact Or.inl ⟨rfl, nofun⟩
  split
  · exact Or.inl ⟨rfl, nofun⟩
  split
  · exact Or.inl ⟨rfl, nofun⟩
  rename_i hpos _
  rcases guardedTransaction_cases env db (reserveBody L digest (env.clock 0) a) with
    ⟨e, he⟩ | ⟨db', res, _, hbody, he⟩
  · rw [he]; exact Or.inl ⟨rfl, nofun⟩
  · rw [he]
    rcases reserveBody_cases (by omega) hbody with ⟨rfl, row, hkey, rfl⟩ | ⟨row, hins, rfl, rfl⟩
    · exact Or.inl ⟨rfl, fun res h => ⟨row, hkey, by cases h; rfl⟩⟩
    · exact Or.inr ⟨row, hins, rfl⟩

/-! ## Moving rows -/

/-- Every row is kept or moves by one transition; no row is added or removed. -/
def MovesRuns (db db' : LedgerDb τ) : Prop :=
  ∃ g : BudgetRun τ → BudgetRun τ, db'.runs = db.runs.map g ∧ ∀ r ∈ db.runs, Moves r (g r)

theorem MovesRuns.refl (db : LedgerDb τ) : MovesRuns db db :=
  ⟨id, by simp, fun r _ => .refl r⟩

theorem movesRuns_updateRuns {db : LedgerDb τ} {p : BudgetRun τ → Bool}
    {f : BudgetRun τ → BudgetRun τ} (h : ∀ r ∈ db.runs, p r → Transition r (f r)) :
    MovesRuns db (db.updateRuns p f) := by
  refine ⟨_, rfl, fun r hr => ?_⟩
  by_cases hp : p r
  · simp only [if_pos hp]; exact Or.inr (h r hr hp)
  · simp only [if_neg hp]; exact .refl r

theorem mem_eq_of_runId {rows : List (BudgetRun τ)} (hn : (rows.map (·.runId)).Nodup)
    {r s : BudgetRun τ} (hr : r ∈ rows) (hs : s ∈ rows) (he : r.runId = s.runId) : r = s :=
  List.inj_on_of_nodup_map hn hr hs he

theorem findRun_eq_some {db : LedgerDb τ} {runId : String} {row : BudgetRun τ}
    (h : db.findRun runId = some row) : row ∈ db.runs ∧ row.runId = runId :=
  ⟨List.mem_of_find?_eq_some h, by simpa using List.find?_some h⟩

theorem findKey_eq_some {db : LedgerDb τ} {key : String} {row : BudgetRun τ}
    (h : db.findKey key = some row) : row ∈ db.runs ∧ row.keyDigest = key :=
  ⟨List.mem_of_find?_eq_some h, by simpa using List.find?_some h⟩

/-! ## Settling and releasing -/

theorem settledAmount_le {held : Int} (unused : Option Int) : settledAmount held unused ≤ held := by
  unfold settledAmount
  cases unused with
  | none => exact le_rfl
  | some u => dsimp only; split <;> omega

theorem settledAmount_nonneg {held : Int} (unused : Option Int) (h : 0 ≤ held) :
    0 ≤ settledAmount held unused := by
  unfold settledAmount
  cases unused with
  | none => exact h
  | some u => dsimp only; split <;> omega

theorem settleBody_moves {now : τ} {runId : String} {unused : Option Int} {db db' : LedgerDb τ}
    {res : Reservation} (hn : (db.runs.map (·.runId)).Nodup)
    (h : settleBody now runId unused db = .ok (db', res)) : MovesRuns db db' := by
  unfold settleBody at h
  split at h
  · cases h
  · rename_i row hrow
    obtain ⟨hmem, hid⟩ := findRun_eq_some hrow
    split at h
    · cases h; exact .refl db
    · rename_i hopen
      cases h
      refine movesRuns_updateRuns fun r hr hp => ?_
      -- The run id is a primary key, so the updated row is the one that was read.
      obtain rfl : r = row := mem_eq_of_runId hn hr hmem (by simpa [hid] using hp)
      exact .settle _ _ (by simpa using hopen) (settledAmount_nonneg _) (settledAmount_le _)

theorem releasePreDispatchBody_moves {now : τ} {runId : String} {db db' : LedgerDb τ}
    {res : Reservation} (h : releasePreDispatchBody now runId db = .ok (db', res)) :
    MovesRuns db db' := by
  unfold releasePreDispatchBody at h
  split at h
  · cases h
  split at h
  · cases h
  split at h
  · cases h
  cases h
  exact movesRuns_updateRuns fun r _ hp => .release _ (by simp_all)

/-! ## Recovering expired runs -/

/-- What the updates of `updateEach` do to one row. -/
def updateOne (f : ℕ → BudgetRun τ → BudgetRun τ) :
    ℕ → List (BudgetRun τ) → BudgetRun τ → BudgetRun τ
  | _, [], r => r
  | k, row :: rows, r => updateOne f (k + 1) rows (if r.runId = row.runId then f k r else r)

theorem updateEach_runs (f : ℕ → BudgetRun τ → BudgetRun τ) (k : ℕ) (rows : List (BudgetRun τ))
    (db : LedgerDb τ) : (updateEach f k rows db).runs = db.runs.map (updateOne f k rows) := by
  induction rows generalizing k db with
  | nil => simp [updateEach, updateOne]
  | cons row rows ih =>
      simp only [updateEach, ih, LedgerDb.updateRuns, List.map_map]
      refine List.map_congr_left fun r _ => ?_
      simp [updateOne]

theorem updateEach_stages (f : ℕ → BudgetRun τ → BudgetRun τ) (k : ℕ) (rows : List (BudgetRun τ))
    (db : LedgerDb τ) : (updateEach f k rows db).stages = db.stages := by
  induction rows generalizing k db with
  | nil => rfl
  | cons row rows ih => simp only [updateEach, ih, LedgerDb.updateRuns]

variable {f : ℕ → BudgetRun τ → BudgetRun τ} {rows : List (BudgetRun τ)} {r : BudgetRun τ}

theorem updateOne_of_not_mem {k : ℕ} (h : r.runId ∉ rows.map (·.runId)) :
    updateOne f k rows r = r := by
  induction rows generalizing k with
  | nil => rfl
  | cons row rows ih =>
      simp only [List.map_cons, List.mem_cons, not_or] at h
      rw [updateOne, if_neg h.1, ih h.2]

/-- Distinct rows are selected, so a selected row is updated exactly once. -/
theorem updateOne_of_mem (hid : ∀ k r, (f k r).runId = r.runId) {k : ℕ}
    (hn : (rows.map (·.runId)).Nodup) (h : r.runId ∈ rows.map (·.runId)) :
    ∃ j, updateOne f k rows r = f j r := by
  induction rows generalizing k with
  | nil => simp at h
  | cons row rows ih =>
      simp only [List.map_cons, List.nodup_cons] at hn
      by_cases he : r.runId = row.runId
      · refine ⟨k, ?_⟩
        rw [updateOne, if_pos he, updateOne_of_not_mem]
        rw [hid, he]; exact hn.1
      · simp only [List.map_cons, List.mem_cons, he, false_or] at h
        simpa only [updateOne, if_neg he] using ih hn.2 h

theorem selected_runId {p : BudgetRun τ → Bool} {r : BudgetRun τ}
    (hn : (rows.map (·.runId)).Nodup) (hr : r ∈ rows) :
    r.runId ∈ (rows.filter p).map (·.runId) ↔ p r := by
  constructor
  · intro h
    obtain ⟨s, hs, he⟩ := List.mem_map.mp h
    obtain ⟨hs, hp⟩ := List.mem_filter.mp hs
    rwa [← mem_eq_of_runId hn hs hr he]
  · intro hp
    exact List.mem_map.mpr ⟨r, List.mem_filter.mpr ⟨hr, hp⟩, rfl⟩

theorem selected_nodup {p : BudgetRun τ → Bool} (hn : (rows.map (·.runId)).Nodup) :
    ((rows.filter p).map (·.runId)).Nodup :=
  hn.sublist (List.filter_sublist.map _)

theorem recoverExpiredBody_moves [LT τ] [DecidableLT τ] {clock : ℕ → τ} {before : τ}
    {db db' : LedgerDb τ} {n : ℕ × ℕ} (hn : (db.runs.map (·.runId)).Nodup)
    (h : recoverExpiredBody clock before db = .ok (db', n)) : MovesRuns db db' := by
  simp only [recoverExpiredBody, Except.ok.injEq, Prod.mk.injEq] at h
  obtain ⟨rfl, -⟩ := h
  refine ⟨_, by rw [updateEach_runs, updateEach_runs, List.map_map], fun r hr => ?_⟩
  simp only [Function.comp_apply]
  have hunmarked := selected_runId (p := fun r => r.state = .reserved && r.updatedAt < before &&
    !db.hasStageMarkers r.runId) hn hr
  have hmarked := selected_runId (p := fun r => (r.state = .reserved || r.state = .dispatched) &&
    r.updatedAt < before && db.hasStageMarkers r.runId) hn hr
  simp only [Bool.and_eq_true, Bool.or_eq_true, decide_eq_true_eq, Bool.not_eq_true'] at hunmarked hmarked
  -- A run without a marker is released, a run with one is consumed; no run is in both selections.
  by_cases hu : r.runId ∈ (db.staleUnmarked before).map (·.runId)
  · obtain ⟨j, hj⟩ := updateOne_of_mem (f := fun k r => r.release (clock k)) (fun _ _ => rfl)
      (k := 0) (selected_nodup hn) hu
    have hu' := hunmarked.mp hu
    have hm : r.runId ∉ (db.staleMarked before).map (·.runId) := fun hm => by
      simpa [hu'.2] using (hmarked.mp hm).2
    rw [← LedgerDb.staleUnmarked] at hj
    rw [hj, updateOne_of_not_mem (r := r.release (clock j)) hm]
    exact Or.inr (.release _ hu'.1.1)
  · rw [updateOne_of_not_mem hu]
    by_cases hm : r.runId ∈ (db.staleMarked before).map (·.runId)
    · obtain ⟨j, hj⟩ := updateOne_of_mem (f := fun k r => r.consume (clock k)) (fun _ _ => rfl)
        (k := (db.staleUnmarked before).length) (selected_nodup hn) hm
      rw [← LedgerDb.staleMarked] at hj
      rw [hj]
      refine Or.inr (.consume _ ?_)
      rcases (hmarked.mp hm).1.1 with hs | hs <;> rw [hs] <;> rfl
    · rw [updateOne_of_not_mem hm]; exact .refl r

/-! ## Marking -/

theorem insertMarker_cases {now : τ} {runId stageName : String} {db db' : LedgerDb τ}
    (h : insertMarker now runId stageName db = .ok db') :
    (db' = db ∧ db.isStageMarked runId stageName) ∨
      (db.isStageMarked runId stageName = false ∧ (∃ row, db.findRun runId = some row) ∧
        db' = { db with stages := db.stages ++ [⟨runId, stageName, now⟩] }) := by
  unfold insertMarker at h
  split at h
  · cases h; exact Or.inl ⟨rfl, ‹_›⟩
  split at h
  · cases h
  · rename_i hmark hrun
    cases h
    exact Or.inr ⟨by simpa using hmark, Option.ne_none_iff_exists'.mp (by simpa using hrun), rfl⟩

/-- The rows after a marker: a reserved run of that id is dispatched. -/
theorem markDispatchBody_moves {clock : ℕ → τ} {runId stageName : String} {db db' : LedgerDb τ}
    {u : Unit} (h : markDispatchBody clock runId stageName db = .ok (db', u)) :
    MovesRuns db db' := by
  unfold markDispatchBody at h
  split at h
  · cases h
  · rename_i marked hmark
    cases h
    have hruns : marked.runs = db.runs := by
      rcases insertMarker_cases hmark with ⟨rfl, _⟩ | ⟨_, _, rfl⟩ <;> rfl
    obtain ⟨g, hg, hmoves⟩ : MovesRuns marked (marked.updateRuns
        (fun r => r.runId = runId && r.state = .reserved) (·.dispatch (clock 1))) :=
      movesRuns_updateRuns fun r _ hp => .dispatch _ (by simp_all)
    rw [hruns] at hg hmoves
    exact ⟨g, hg, hmoves⟩

/-! ## One call -/

theorem guardedTransaction_moves {α : Type} {env : CallEnv τ} {db : LedgerDb τ}
    {body : LedgerDb τ → Except LedgerError (LedgerDb τ × α)}
    (h : ∀ db' a, body db = .ok (db', a) → MovesRuns db db') :
    MovesRuns db (guardedTransaction env db body).1 := by
  rcases guardedTransaction_cases env db body with ⟨e, he⟩ | ⟨db', a, _, hbody, he⟩
  · rw [he]; exact .refl db
  · rw [he]; exact h db' a hbody

variable (L digest) in
/-- What a call does to the runs. -/
theorem step_runs [LT τ] [DecidableLT τ] (c : Call τ) {db : LedgerDb τ}
    (hn : (db.runs.map (·.runId)).Nodup) :
    MovesRuns db (step L digest db c) ∨
      ∃ a row, c.op = .reserve a ∧ Inserts L digest db a row ∧
        step L digest db c = { db with runs := db.runs ++ [row] } := by
  obtain ⟨env, op⟩ := c
  cases op with
  | reserve a =>
      simp only [step]
      rcases reserve_cases L digest env a db with ⟨he, _⟩ | ⟨row, hins, he⟩
      · rw [he]; exact Or.inl (.refl db)
      · rw [he]; exact Or.inr ⟨a, row, rfl, hins, rfl⟩
  | markDispatch runId stageName =>
      exact Or.inl (guardedTransaction_moves fun _ _ h => markDispatchBody_moves h)
  | settle runId unused =>
      exact Or.inl (guardedTransaction_moves fun _ _ h => settleBody_moves hn h)
  | releasePreDispatch runId =>
      exact Or.inl (guardedTransaction_moves fun _ _ h => releasePreDispatchBody_moves h)
  | recoverExpired before =>
      exact Or.inl (guardedTransaction_moves fun _ _ h => recoverExpiredBody_moves hn h)

end Perpetua.Budget

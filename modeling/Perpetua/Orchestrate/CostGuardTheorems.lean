import Mathlib.Algebra.Order.BigOperators.Group.List
import Mathlib.Algebra.Order.Field.Basic
import Mathlib.Data.List.Count
import Mathlib.Tactic.Linarith
import Perpetua.Orchestrate.CostGuard

/-!
# The cost guard never reserves too much

After every load the file and the memory hold the same payload. What any later load may read leaves
room in the budget for the outstanding reservations.
-/

namespace Perpetua.Orchestrate

open CostGuard

/-! ## Amounts -/

/-- A multiple of a millionth. -/
def Micro (q : ℚ) : Prop := ∃ n : ℤ, q = n / 1000000

theorem Micro.zero : Micro 0 := ⟨0, by simp⟩

theorem Micro.add {p q : ℚ} (hp : Micro p) (hq : Micro q) : Micro (p + q) := by
  obtain ⟨m, rfl⟩ := hp
  obtain ⟨n, rfl⟩ := hq
  exact ⟨m + n, by rw [Int.cast_add, add_div]⟩

theorem round6_of_micro {q : ℚ} (h : Micro q) : round6 q = q := by
  obtain ⟨n, rfl⟩ := h
  have hscaled : (n : ℚ) / 1000000 * 1000000 = n := div_mul_cancel₀ _ (by norm_num)
  have hround : PyNumber.roundHalfEven (n : ℚ) = n := by simp [PyNumber.roundHalfEven]
  rw [round6, hscaled, hround]

/-- Together with `x` a payload stays within its budget. -/
structure Fits (payload : BudgetPayload) (x : ℚ) : Prop where
  nonneg : 0 ≤ payload.dailySpend
  micro : Micro payload.dailySpend
  le : payload.dailySpend + x ≤ payload.dailyBudget

/-! ## Sums of reservations -/

section Sums

variable {g : CostGuard}

/-- Every reserved amount is a natural number of millionths. -/
def Amounts (reserved : OrderedDict String Reservation) : Prop :=
  ∀ id r, reserved.get? id = some r → 0 ≤ r.1 ∧ Micro r.1

theorem sum_erase {l : List (String × Reservation)} (hn : (l.map Prod.fst).Nodup) {id : String}
    {r : Reservation} (h : Entries.get? l id = some r) :
    r.1 + ((Entries.erase l id).map (·.2.1)).sum = (l.map (·.2.1)).sum := by
  induction l with
  | nil => cases h
  | cons e l ih =>
      rw [List.map_cons, List.nodup_cons] at hn
      rw [Entries.get?_cons] at h
      unfold Entries.erase at ih ⊢
      by_cases hid : e.1 = id
      · rw [if_pos hid] at h
        have hrest : l.filter (fun e => ¬ e.1 = id) = l := by
          refine List.filter_eq_self.mpr fun f hf => decide_eq_true fun hfid => hn.1 ?_
          exact List.mem_map.mpr ⟨f, hf, hfid.trans hid.symm⟩
        rw [List.filter_cons_of_neg (by simpa using hid), hrest, ← Option.some.inj h]
        simp
      · rw [if_neg hid] at h
        rw [List.filter_cons_of_pos (by simpa using hid), List.map_cons, List.sum_cons,
          List.map_cons, List.sum_cons, ← ih hn.2 h]
        ring

theorem sum_set_le {l : List (String × Reservation)} (h : ∀ e ∈ l, 0 ≤ e.2.1) (id : String)
    (r : Reservation) :
    ((Entries.set l id r).map (·.2.1)).sum ≤ (l.map (·.2.1)).sum + r.1 := by
  induction l with
  | nil => simp [Entries.set]
  | cons e l ih =>
      have htail := ih fun f hf => h f (List.mem_cons_of_mem _ hf)
      have hhead := h e List.mem_cons_self
      rw [Entries.set]
      split
      · simp only [List.map_cons, List.sum_cons]
        linarith
      · simp only [List.map_cons, List.sum_cons]
        linarith

theorem sum_filter_le {l : List (String × Reservation)} {p : String × Reservation → Bool}
    (h : ∀ e ∈ l, 0 ≤ e.2.1) :
    ((l.filter p).map (·.2.1)).sum ≤ (l.map (·.2.1)).sum := by
  refine (List.filter_sublist.map _).sum_le_sum fun q hq => ?_
  obtain ⟨e, he, rfl⟩ := List.mem_map.mp hq
  exact h e he

theorem Amounts.entries {reserved : OrderedDict String Reservation} (h : Amounts reserved) :
    ∀ e ∈ reserved.entries, 0 ≤ e.2.1 :=
  fun e he => (h e.1 e.2 (Entries.get?_of_mem reserved.nodup he)).1

theorem inFlight_sweep_le (h : Amounts g.reserved) (env : GuardEnv) :
    (g.sweep env).inFlight ≤ g.inFlight := sum_filter_le h.entries

end Sums

/-! ## Loading and saving -/

section Synced

variable {g : CostGuard} {payload : BudgetPayload} {env : GuardEnv}

/-- Every later load reads the payload. -/
structure Synced (g : CostGuard) (payload : BudgetPayload) : Prop where
  memory : g.memoryState = payload
  file : g.persistEnabled = true → g.file = some payload

theorem load_of_synced (h : Synced g payload) (env : GuardEnv) : (g.load env).2 = payload := by
  unfold load
  split
  · exact h.memory
  · rename_i hpersist
    split
    · exact h.memory
    · rw [h.file (by simpa using hpersist)]

theorem synced_save (g : CostGuard) (payload : BudgetPayload) (fails : Bool) :
    Synced (g.save payload fails) payload := by
  unfold save
  dsimp only
  split
  · rename_i hpersist
    exact ⟨rfl, fun h => by simp_all⟩
  · split
    · exact ⟨rfl, nofun⟩
    · exact ⟨rfl, fun _ => rfl⟩

theorem synced_load (g : CostGuard) (env : GuardEnv) : Synced (g.load env).1 (g.load env).2 := by
  unfold load
  split
  · rename_i hpersist
    exact ⟨rfl, fun h => by simp_all⟩
  · split
    · exact ⟨rfl, nofun⟩
    · cases hfile : g.file with
      | none => exact synced_save g _ _
      | some payload => exact ⟨rfl, fun _ => rfl⟩

@[simp] theorem reserved_save (g : CostGuard) (payload : BudgetPayload) (fails : Bool) :
    (g.save payload fails).reserved = g.reserved := by
  unfold save
  grind

@[simp] theorem reserved_load (g : CostGuard) (env : GuardEnv) :
    (g.load env).1.reserved = g.reserved := by
  unfold load
  split
  · rfl
  · split
    · rfl
    · cases hfile : g.file with
      | none => exact reserved_save _ _ _
      | some payload => rfl

/-- The payload that `_maybe_reset` makes of another one. -/
def afterReset (env : GuardEnv) (payload : BudgetPayload) : BudgetPayload :=
  if resetDue env payload then { payload with dailySpend := 0, lastReset := env.resetAt }
  else payload

theorem current_snd (g : CostGuard) (env : GuardEnv) :
    (g.current env).2 = afterReset env (g.load env).2 := by
  simp only [current, maybeReset, afterReset]
  split
  · rfl
  · rfl

@[simp] theorem reserved_current (g : CostGuard) (env : GuardEnv) :
    (g.current env).1.reserved = g.reserved := by
  simp only [current, maybeReset]
  split
  · rw [reserved_save, reserved_load]
  · exact reserved_load g env

theorem synced_current (g : CostGuard) (env : GuardEnv) :
    Synced (g.current env).1 (g.current env).2 := by
  simp only [current, maybeReset]
  split
  · exact synced_save _ _ _
  · exact synced_load g env

theorem Fits.afterReset {x : ℚ} (h : Fits payload x) (env : GuardEnv) :
    Fits (afterReset env payload) x := by
  unfold Orchestrate.afterReset
  split
  · exact ⟨le_rfl, Micro.zero, by have := h.nonneg; have := h.le; dsimp only; linarith⟩
  · exact h

end Synced

/-! ## The invariant -/

/-- Whatever a load reads, it has room for the reservations. -/
structure Within (g : CostGuard) : Prop where
  amounts : Amounts g.reserved
  fits : ∀ env, Fits (g.load env).2 g.inFlight

theorem within_of_synced {g : CostGuard} {payload : BudgetPayload} (hsynced : Synced g payload)
    (hamounts : Amounts g.reserved) (hfits : Fits payload g.inFlight) : Within g :=
  ⟨hamounts, fun env => (load_of_synced hsynced env).symm ▸ hfits⟩

theorem within_opened {file : Option BudgetPayload} {createdAt : ℚ}
    (hfile : ∀ payload, file = some payload → Fits payload 0) :
    Within (opened file createdAt) := by
  have hdefault : ∀ t, Fits (defaultBudget t) 0 :=
    fun t => ⟨le_rfl, Micro.zero, by simp [defaultBudget]⟩
  have hamounts : Amounts (opened file createdAt).reserved := by
    intro id r hget
    cases hget
  refine ⟨hamounts, fun env => ?_⟩
  change Fits _ 0
  unfold load opened
  dsimp only
  split
  · exact hdefault createdAt
  · split
    · exact hdefault createdAt
    · cases file with
      | none => exact hdefault env.createdAt
      | some payload => exact hfile payload rfl

section Steps

variable {g : CostGuard} {env : GuardEnv}

theorem load_snd_congr {g g' : CostGuard} (hfile : g'.file = g.file)
    (hmemory : g'.memoryState = g.memoryState) (hpersist : g'.persistEnabled = g.persistEnabled)
    (env : GuardEnv) : (g'.load env).2 = (g.load env).2 := by
  simp only [load, hfile, hmemory, hpersist]
  split
  · rfl
  · split
    · rfl
    · cases g.file with
      | none => rfl
      | some payload => rfl

/-- Taking reservations away keeps the invariant. -/
theorem Within.drop (h : Within g) {reserved : OrderedDict String Reservation}
    (hamounts : Amounts reserved)
    (hle : (reserved.entries.map (·.2.1)).sum ≤ g.inFlight) : Within { g with reserved } := by
  refine ⟨hamounts, fun env => ?_⟩
  have hfits := h.fits env
  have hload : (load { g with reserved } env).2 = (g.load env).2 :=
    @load_snd_congr g { g with reserved } rfl rfl rfl env
  rw [hload]
  exact ⟨hfits.nonneg, hfits.micro, (add_le_add_right hle _).trans hfits.le⟩

theorem Within.sweep (h : Within g) (env : GuardEnv) : Within (g.sweep env) := by
  refine h.drop (fun id r hget => ?_) (inFlight_sweep_le h.amounts env)
  rw [OrderedDict.get?_filterValues] at hget
  exact h.amounts id r (Option.filter_eq_some_iff.mp hget).1

theorem amounts_erase (h : Amounts g.reserved) (id : String) : Amounts (g.reserved.erase id) := by
  intro id' r hget
  rw [OrderedDict.get?_erase] at hget
  split at hget
  · cases hget
  · exact h id' r hget

theorem inFlight_erase {id : String} {r : Reservation} (h : g.reserved.get? id = some r) :
    r.1 + ((g.reserved.erase id).entries.map (·.2.1)).sum = g.inFlight :=
  sum_erase g.reserved.nodup h

theorem Within.erase (h : Within g) {id : String} {r : Reservation}
    (hget : g.reserved.get? id = some r) : Within { g with reserved := g.reserved.erase id } := by
  refine h.drop (amounts_erase h.amounts id) ?_
  have hsum := inFlight_erase hget
  have hnonneg := (h.amounts id r hget).1
  linarith

theorem Within.current_fits (h : Within g) (env : GuardEnv) :
    Fits (g.current env).2 g.inFlight := by
  rw [current_snd]
  exact (h.fits env).afterReset env

theorem Within.current (h : Within g) (env : GuardEnv) : Within (g.current env).1 := by
  refine within_of_synced (synced_current g env) ?_ ?_
  · rw [reserved_current]
    exact h.amounts
  · rw [inFlight, reserved_current]
    exact h.current_fits env

/-- The amounts are exact, and a commit costs no more than was reserved. -/
def Admissible (g : CostGuard) (c : GuardCall × GuardEnv) : Prop :=
  match c.1 with
  | .reserve (.finite cost) => Micro cost
  | .commit id (some (.finite cost)) =>
      Micro cost ∧ ∀ r, g.reserved.get? id = some r → cost ≤ r.1
  | _ => True

/-! ## Reserve -/

/-- What `reserve` can do. -/
inductive Reserves (g : CostGuard) (estimatedCost : Amount) (env : GuardEnv) :
    CostGuard × Except GuardError String → Prop
  | invalid : Reserves g estimatedCost env (g, .error .valueError)
  | refused : Reserves g estimatedCost env (((g.sweep env).current env).1, .error .budgetExceeded)
  | granted {cost : ℚ} (hcost : estimatedCost = .finite cost) (hnonneg : 0 ≤ cost)
      (hroom : ((g.sweep env).current env).2.dailySpend + (g.sweep env).inFlight + cost ≤
        ((g.sweep env).current env).2.dailyBudget) :
      Reserves g estimatedCost env
        ({ ((g.sweep env).current env).1 with
            reserved := (g.sweep env).reserved.set env.reservationId (cost, env.reservedAt) },
          .ok env.reservationId)

theorem reserves (g : CostGuard) (estimatedCost : Amount) (env : GuardEnv) :
    Reserves g estimatedCost env (g.reserve estimatedCost env) := by
  unfold reserve
  cases estimatedCost with
  | nonfinite => exact .invalid
  | finite cost =>
      dsimp only
      split
      · exact .invalid
      · rename_i hnonneg
        have hflight : ((g.sweep env).current env).1.inFlight = (g.sweep env).inFlight := by
          rw [inFlight, reserved_current, inFlight]
        rw [hflight, reserved_current]
        split
        · exact .refused
        · rename_i hroom
          exact .granted rfl (not_lt.mp hnonneg) (not_lt.mp hroom)

theorem within_reserve (h : Within g) {estimatedCost : Amount}
    (hadmissible : Admissible g (.reserve estimatedCost, env)) :
    Within (g.reserve estimatedCost env).1 := by
  have hreserves := reserves g estimatedCost env
  generalize g.reserve estimatedCost env = outcome at hreserves
  cases hreserves with
  | invalid => exact h
  | refused => exact (h.sweep env).current env
  | @granted cost hcost hnonneg hroom =>
      have hswept := h.sweep env
      have hsynced := synced_current (g.sweep env) env
      refine within_of_synced ⟨hsynced.memory, hsynced.file⟩ ?_ ?_
      · intro id r hget
        rw [OrderedDict.get?_set] at hget
        split at hget
        · obtain rfl := Option.some.inj hget
          rw [hcost] at hadmissible
          exact ⟨hnonneg, hadmissible⟩
        · exact hswept.amounts id r hget
      · have hfits := hswept.current_fits env
        have hsum := sum_set_le hswept.amounts.entries env.reservationId (cost, env.reservedAt)
        refine ⟨hfits.nonneg, hfits.micro, ?_⟩
        change _ + ((Entries.set (g.sweep env).reserved.entries _ _).map _).sum ≤ _
        unfold inFlight at hroom
        linarith

/-! ## Commit -/

/-- What `commit` can do. -/
inductive Commits (g : CostGuard) (id : String) (actualCost : Option Amount) (env : GuardEnv) :
    CostGuard × Except GuardError BudgetPayload → Prop
  | unknown : Commits g id actualCost env (g, .error .unknownReservation)
  | invalid : Commits g id actualCost env (g, .error .valueError)
  | settled {r : Reservation} {amount : ℚ} (hget : g.reserved.get? id = some r)
      (hamount : actualCost.getD (.finite r.1) = .finite amount) (hnonneg : 0 ≤ amount)
      {erased : CostGuard} (herased : erased = { g with reserved := g.reserved.erase id })
      {payload : BudgetPayload}
      (hpayload : payload = { (erased.current env).2 with
        dailySpend := round6 ((erased.current env).2.dailySpend + amount) }) :
      Commits g id actualCost env ((erased.current env).1.save payload env.saveFails, .ok payload)

theorem commits (g : CostGuard) (id : String) (actualCost : Option Amount) (env : GuardEnv) :
    Commits g id actualCost env (g.commit id actualCost env) := by
  unfold commit
  cases hget : g.reserved.get? id with
  | none => exact .unknown
  | some r =>
      obtain ⟨estimated, reservedAt⟩ := r
      dsimp only
      cases hamount : actualCost.getD (.finite estimated) with
      | nonfinite => exact .invalid
      | finite amount =>
          dsimp only
          split
          · exact .invalid
          · rename_i hnonneg
            exact .settled hget hamount (not_lt.mp hnonneg) rfl rfl

theorem within_commit (h : Within g) {id : String} {actualCost : Option Amount}
    (hadmissible : Admissible g (.commit id actualCost, env)) :
    Within (g.commit id actualCost env).1 := by
  have hcommits := commits g id actualCost env
  generalize g.commit id actualCost env = outcome at hcommits
  cases hcommits with
  | unknown => exact h
  | invalid => exact h
  | @settled r amount hget hamount hnonneg erased herased payload hpayload =>
      have hreserved := h.amounts id r hget
      have hcost : Micro amount ∧ amount ≤ r.1 := by
        cases actualCost with
        | none =>
            obtain rfl := Amount.finite.inj hamount
            exact ⟨hreserved.2, le_rfl⟩
        | some cost =>
            obtain rfl : cost = .finite amount := hamount
            exact ⟨hadmissible.1, hadmissible.2 r hget⟩
      have hwithin : Within erased := herased ▸ h.erase hget
      have hsum : r.1 + erased.inFlight = g.inFlight := by rw [herased]; exact inFlight_erase hget
      have hreset : (erased.current env).2.dailySpend + g.inFlight ≤
          (erased.current env).2.dailyBudget := by
        have hload : (erased.load env).2 = (g.load env).2 := by
          exact load_snd_congr (by rw [herased]) (by rw [herased]) (by rw [herased]) env
        rw [current_snd, hload]
        exact ((h.fits env).afterReset env).le
      have hfits := hwithin.current_fits env
      have hmicro := hfits.micro.add hcost.1
      refine within_of_synced (synced_save _ _ _) ?_ ?_
      · rw [reserved_save, reserved_current]
        exact hwithin.amounts
      · have hflight : ((erased.current env).1.save payload env.saveFails).inFlight =
            erased.inFlight := by
          rw [inFlight, reserved_save, reserved_current, inFlight]
        rw [hflight, hpayload, round6_of_micro hmicro]
        refine ⟨add_nonneg hfits.nonneg hnonneg, hmicro, ?_⟩
        dsimp only
        linarith [hcost.2]

/-! ## Rollback -/

/-- What `rollback` can do. -/
inductive RollsBack (g : CostGuard) (id : String) : CostGuard × Except GuardError Unit → Prop
  | unknown : RollsBack g id (g, .error .unknownReservation)
  | settled {r : Reservation} (hget : g.reserved.get? id = some r) :
      RollsBack g id ({ g with reserved := g.reserved.erase id }, .ok ())

theorem rollsBack (g : CostGuard) (id : String) : RollsBack g id (g.rollback id) := by
  unfold rollback
  cases hget : g.reserved.get? id with
  | none => exact .unknown
  | some r => exact .settled hget

theorem within_rollback (h : Within g) (id : String) : Within (g.rollback id).1 := by
  have hrolls := rollsBack g id
  generalize g.rollback id = outcome at hrolls
  cases hrolls with
  | unknown => exact h
  | settled hget => exact h.erase hget

@[simp] theorem guard_reserveOutcome (swept : List GuardEvent)
    (outcome : CostGuard × Except GuardError String) :
    (reserveOutcome swept outcome).guard = outcome.1 := by
  obtain ⟨g', result⟩ := outcome
  cases result with
  | ok id => rfl
  | error e => cases e <;> rfl

@[simp] theorem guard_settleOutcome {α : Type} (id : String)
    (outcome : CostGuard × Except GuardError α) : (settleOutcome id outcome).guard = outcome.1 := by
  obtain ⟨g', result⟩ := outcome
  cases result with
  | ok a => rfl
  | error e => rfl

theorem call_reserve (g : CostGuard) (estimatedCost : Amount) (env : GuardEnv) :
    g.call (.reserve estimatedCost, env) =
      reserveOutcome (g.sweptEvents env) (g.reserve estimatedCost env) := rfl

theorem call_commit (g : CostGuard) (id : String) (actualCost : Option Amount) (env : GuardEnv) :
    g.call (.commit id actualCost, env) = settleOutcome id (g.commit id actualCost env) := rfl

theorem call_rollback (g : CostGuard) (id : String) (env : GuardEnv) :
    g.call (.rollback id, env) = settleOutcome id (g.rollback id) := rfl

theorem within_step (h : Within g) {c : GuardCall × GuardEnv} (hadmissible : Admissible g c) :
    Within (g.step c) := by
  obtain ⟨call, env⟩ := c
  cases call with
  | reserve estimatedCost =>
      rw [CostGuard.step, call_reserve, guard_reserveOutcome]
      exact within_reserve h hadmissible
  | commit id actualCost =>
      rw [CostGuard.step, call_commit, guard_settleOutcome]
      exact within_commit h hadmissible
  | rollback id =>
      rw [CostGuard.step, call_rollback, guard_settleOutcome]
      exact within_rollback h id
  | sweep => exact h.sweep env
  | canSpend estimatedCost => exact h.current env

/-! ## Settlements -/

/-- 1 if a reservation is outstanding, and 0 otherwise. -/
def outstanding (g : CostGuard) (id : String) : ℕ := if (g.reserved.get? id).isSome then 1 else 0

theorem outstanding_congr {g g' : CostGuard} (h : g'.reserved = g.reserved) (id : String) :
    outstanding g' id = outstanding g id := by rw [outstanding, h, outstanding]

theorem count_reserved_sweptEvents (g : CostGuard) (env : GuardEnv) (id : String) :
    (g.sweptEvents env).count (.reserved id) = 0 := by
  refine List.count_eq_zero.mpr fun hmem => ?_
  obtain ⟨id', -, hid⟩ := List.mem_map.mp hmem
  cases hid

/-- A sweep settles what it drops. -/
theorem count_sweptEvents (g : CostGuard) (env : GuardEnv) (id : String) :
    (g.sweptEvents env).count (.settled id) + outstanding (g.sweep env) id = outstanding g id := by
  have hcount : (g.sweptEvents env).count (.settled id) =
      (g.reserved.filterValues (expired env)).keys.count id := by
    unfold CostGuard.sweptEvents
    exact List.count_map_of_injective _ _ (fun _ _ => GuardEvent.settled.inj) _
  have hnodup : (g.reserved.filterValues (expired env)).keys.Nodup := OrderedDict.nodup _
  have hmem : id ∈ (g.reserved.filterValues (expired env)).keys ↔
      ∃ r, g.reserved.get? id = some r ∧ expired env r := by
    simp [OrderedDict.mem_keys, Option.filter_eq_some_iff]
  rw [hcount, hnodup.count]
  simp only [hmem, outstanding, CostGuard.sweep, OrderedDict.get?_filterValues]
  cases hget : g.reserved.get? id with
  | none => simp
  | some r => cases hexpired : expired env r <;> simp [hexpired]

theorem outstanding_erase {reserved : OrderedDict String Reservation} {id : String}
    {r : Reservation} (hget : g.reserved.get? id = some r)
    (herased : reserved = g.reserved.erase id) (id' : String) :
    [GuardEvent.settled id].count (.settled id') +
      (if (reserved.get? id').isSome then 1 else 0) = outstanding g id' := by
  rw [herased, OrderedDict.get?_erase, List.count_singleton, outstanding]
  by_cases hid : id' = id
  · simp [hid, hget]
  · simp [hid, Ne.symm hid]

/-- A call settles no more than is outstanding or than it reserves. -/
theorem count_call (g : CostGuard) (c : GuardCall × GuardEnv) (id : String) :
    (g.call c).events.count (.settled id) + outstanding (g.call c).guard id ≤
      outstanding g id + (g.call c).events.count (.reserved id) := by
  obtain ⟨call, env⟩ := c
  cases call with
  | reserve estimatedCost =>
      rw [call_reserve]
      have hreserves := reserves g estimatedCost env
      generalize g.reserve estimatedCost env = outcome at hreserves
      have hswept := count_sweptEvents g env id
      cases hreserves with
      | invalid => simp [reserveOutcome]
      | refused =>
          have hsame : outstanding ((g.sweep env).current env).1 id =
              outstanding (g.sweep env) id :=
            outstanding_congr (reserved_current _ _) id
          simp only [reserveOutcome]
          omega
      | @granted cost _ _ _ =>
          have hnew : ∀ g' : CostGuard,
              g'.reserved = (g.sweep env).reserved.set env.reservationId (cost, env.reservedAt) →
              outstanding g' id ≤ outstanding (g.sweep env) id +
                [GuardEvent.reserved env.reservationId].count (.reserved id) := by
            intro g' hg'
            unfold outstanding
            rw [hg', OrderedDict.get?_set, List.count_singleton]
            by_cases hid : env.reservationId = id
            · simp [hid]
            · simp [hid]
          have hnone : [GuardEvent.reserved env.reservationId].count (.settled id) = 0 := by
            simp
          simp only [reserveOutcome]
          rw [List.count_append, List.count_append, hnone, count_reserved_sweptEvents]
          have hgranted := hnew { ((g.sweep env).current env).1 with
            reserved := (g.sweep env).reserved.set env.reservationId (cost, env.reservedAt) } rfl
          dsimp only at hgranted
          omega
  | commit id' actualCost =>
      rw [call_commit]
      have hcommits := commits g id' actualCost env
      generalize g.commit id' actualCost env = outcome at hcommits
      cases hcommits with
      | unknown => simp [settleOutcome]
      | invalid => simp [settleOutcome]
      | settled hget _ _ herased hpayload =>
          refine (outstanding_erase hget ?_ id).le.trans (Nat.le_add_right _ _)
          rw [guard_settleOutcome, reserved_save, reserved_current, herased]
  | rollback id' =>
      rw [call_rollback]
      have hrolls := rollsBack g id'
      generalize g.rollback id' = outcome at hrolls
      cases hrolls with
      | unknown => simp [settleOutcome]
      | settled hget => exact (outstanding_erase hget rfl id).le.trans (Nat.le_add_right _ _)
  | sweep => exact (count_sweptEvents g env id).le.trans (Nat.le_add_right _ _)
  | canSpend estimatedCost =>
      have hsame : outstanding (g.current env).1 id = outstanding g id :=
        outstanding_congr (reserved_current _ _) id
      change 0 + outstanding (g.current env).1 id ≤ _
      omega

/-- The reservation id that a call draws. -/
def drawnId? (c : GuardCall × GuardEnv) : Option String :=
  match c.1 with
  | .reserve _ => some c.2.reservationId
  | _ => none

@[simp] theorem drawnId?_reserve (estimatedCost : Amount) (env : GuardEnv) :
    drawnId? (.reserve estimatedCost, env) = some env.reservationId := rfl

theorem count_reserved_settleOutcome {α : Type} (id' : String)
    (outcome : CostGuard × Except GuardError α) (id : String) :
    (settleOutcome id' outcome).events.count (.reserved id) = 0 := by
  obtain ⟨g', result⟩ := outcome
  cases result with
  | ok a => simp [settleOutcome]
  | error e => simp [settleOutcome]

/-- A call reserves under no id but the one it draws. -/
theorem count_reserved_call (g : CostGuard) (c : GuardCall × GuardEnv) (id : String) :
    (g.call c).events.count (.reserved id) ≤ (drawnId? c).toList.count id := by
  obtain ⟨call, env⟩ := c
  cases call with
  | reserve estimatedCost =>
      rw [call_reserve]
      have hreserves := reserves g estimatedCost env
      generalize g.reserve estimatedCost env = outcome at hreserves
      have hswept := count_reserved_sweptEvents g env id
      cases hreserves with
      | invalid => simp [reserveOutcome]
      | refused => simp [reserveOutcome, hswept]
      | granted =>
          have hone : [GuardEvent.reserved env.reservationId].count (.reserved id) =
              [env.reservationId].count id := by
            simp [List.count_singleton]
          simp only [reserveOutcome]
          rw [List.count_append, hswept, hone, drawnId?_reserve, Option.toList_some, Nat.zero_add]
  | commit id' actualCost =>
      rw [call_commit, count_reserved_settleOutcome]
      exact Nat.zero_le _
  | rollback id' =>
      rw [call_rollback, count_reserved_settleOutcome]
      exact Nat.zero_le _
  | sweep => exact (count_reserved_sweptEvents g env id).le.trans (Nat.zero_le _)
  | canSpend estimatedCost => exact Nat.zero_le _

/-! ## Calls that raise -/

/-- A call that raises changes nothing, except that a refused `reserve` has made its sweep and its
reset. -/
theorem raises_keeps {c : GuardCall × GuardEnv} (hraises : (g.call c).error ≠ none) :
    g.step c = g ∨
      (g.call c).error = some .budgetExceeded ∧
        (g.step c).reserved = (g.sweep c.2).reserved ∧
        ∀ env, ((g.step c).load env).2.dailySpend =
          if resetDue c.2 (g.load c.2).2 then 0 else (g.load c.2).2.dailySpend := by
  obtain ⟨call, env⟩ := c
  unfold CostGuard.step
  cases call with
  | reserve estimatedCost =>
      rw [call_reserve] at hraises ⊢
      have hreserves := reserves g estimatedCost env
      generalize g.reserve estimatedCost env = outcome at hreserves hraises ⊢
      cases hreserves with
      | invalid => exact Or.inl rfl
      | granted _ _ _ => exact absurd rfl hraises
      | refused =>
          refine Or.inr ⟨rfl, reserved_current _ _, fun env' => ?_⟩
          have hload : ((g.sweep env).load env).2 = (g.load env).2 :=
            @load_snd_congr g (g.sweep env) rfl rfl rfl env
          rw [guard_reserveOutcome, load_of_synced (synced_current _ _), current_snd, hload, afterReset]
          split
          · rfl
          · rfl
  | commit id actualCost =>
      rw [call_commit] at hraises ⊢
      have hcommits := commits g id actualCost env
      generalize g.commit id actualCost env = outcome at hcommits hraises ⊢
      cases hcommits with
      | unknown => exact Or.inl rfl
      | invalid => exact Or.inl rfl
      | settled _ _ _ _ _ => exact absurd rfl hraises
  | rollback id =>
      rw [call_rollback] at hraises ⊢
      have hrolls := rollsBack g id
      generalize g.rollback id = outcome at hrolls hraises ⊢
      cases hrolls with
      | unknown => exact Or.inl rfl
      | settled _ => exact absurd rfl hraises
  | sweep => exact absurd rfl hraises
  | canSpend estimatedCost => exact absurd rfl hraises

end Steps

/-! ## Whole runs -/

/-- What becomes of the reservations of a run. -/
def guardEvents (g : CostGuard) (calls : List (GuardCall × GuardEnv)) : List GuardEvent :=
  Machine.outputs CostGuard.step (fun g c => (g.call c).events) g calls

/-- The ids that a run draws bound the reservations it makes under one id. -/
theorem count_reserved_guardEvents (g : CostGuard) (calls : List (GuardCall × GuardEnv))
    (id : String) :
    (guardEvents g calls).count (.reserved id) ≤ (calls.filterMap drawnId?).count id := by
  induction calls generalizing g with
  | nil => exact le_rfl
  | cons c calls ih =>
      have hcall := count_reserved_call g c id
      have hrest := ih (g.step c)
      have hdrawn : (c :: calls).filterMap drawnId? =
          (drawnId? c).toList ++ calls.filterMap drawnId? := by
        cases hc : drawnId? c with
        | none => simp [hc]
        | some id' => simp [hc]
      rw [hdrawn, List.count_append]
      unfold guardEvents at hrest ⊢
      rw [Machine.outputs, List.count_append]
      exact Nat.add_le_add hcall hrest

/-- What a run from no reservation settles under one id has been reserved. -/
theorem count_settled_guardEvents {g : CostGuard} {calls : List (GuardCall × GuardEnv)}
    (hcalls : Machine.Along CostGuard.step Admissible g calls)
    (hstart : ∀ id, outstanding g id = 0) (id : String) :
    (guardEvents g calls).count (.settled id) ≤ (guardEvents g calls).count (.reserved id) := by
  have hhistory := hcalls.history
    (I := fun events g => events.count (.settled id) + outstanding g id ≤
      events.count (.reserved id))
    (o := fun g c => (g.call c).events) (h := [])
    (fun events g c hevents _ => by
      have hcall := count_call g c id
      rw [List.count_append, List.count_append]
      change _ + outstanding (g.call c).guard id ≤ _
      omega)
    (by simp [hstart])
  exact (Nat.le_add_right _ _).trans hhistory

/-- After every run of admissible calls on a guard over a file within its budget: whatever a load
reads, the spend and the outstanding reservations are within the budget; every reservation id is
settled at most as often as it was given out, so at most once where the ids drawn are distinct; and
a call that raises leaves the spend and the reservations as they were, apart from the sweep and the
reset of a refused `reserve`. -/
theorem costGuard_bounded (file : Option BudgetPayload) (createdAt : ℚ)
    (calls : List (GuardCall × GuardEnv))
    (hfile : ∀ payload, file = some payload →
      0 ≤ payload.dailySpend ∧ payload.dailySpend ≤ payload.dailyBudget ∧
        Micro payload.dailySpend)
    (hcalls : Machine.Along CostGuard.step Admissible (opened file createdAt) calls) :
    let g := Machine.run CostGuard.step (opened file createdAt) calls
    (∀ env, (g.load env).2.dailySpend + g.inFlight ≤ (g.load env).2.dailyBudget) ∧
      (∀ id, (guardEvents (opened file createdAt) calls).count (.settled id) ≤
        (guardEvents (opened file createdAt) calls).count (.reserved id)) ∧
      ((calls.filterMap drawnId?).Nodup →
        ∀ id, (guardEvents (opened file createdAt) calls).count (.settled id) ≤ 1) ∧
      ∀ c, (g.call c).error ≠ none →
        g.step c = g ∨
          (g.call c).error = some .budgetExceeded ∧
            (g.step c).reserved = (g.sweep c.2).reserved ∧
            ∀ env, ((g.step c).load env).2.dailySpend =
              if resetDue c.2 (g.load c.2).2 then 0 else (g.load c.2).2.dailySpend := by
  have hstart : Within (opened file createdAt) := by
    refine within_opened fun payload hpayload => ?_
    obtain ⟨hnonneg, hle, hmicro⟩ := hfile payload hpayload
    exact ⟨hnonneg, hmicro, by rwa [add_zero]⟩
  have hwithin := hcalls.invariant (I := Within) (fun g c h hc => within_step h hc) hstart
  have hnone : ∀ id, outstanding (opened file createdAt) id = 0 := fun id => by
    simp [outstanding, opened]
  have hcount := count_settled_guardEvents hcalls hnone
  intro g
  refine ⟨fun env => (hwithin.fits env).le, hcount, fun hdistinct id => ?_,
    fun c hraises => raises_keeps hraises⟩
  exact (hcount id).trans <| (count_reserved_guardEvents _ calls id).trans <|
    List.nodup_iff_count_le_one.mp hdistinct id

/-! ## Sample runs -/

def guardEnv (now : ℚ) (reservationId : String) : GuardEnv :=
  { createdAt := 0, now, resetAt := now, sweptAt := now, reservedAt := now, reservationId }

/-- Two reservations, of which one is committed below its estimate and the other is rolled back. -/
def settlingCalls : List (GuardCall × GuardEnv) :=
  [(.reserve (.finite 5), guardEnv 0 "r"), (.reserve (.finite 15), guardEnv 1 "s"),
    (.commit "r" (some (.finite 4)), guardEnv 2 ""), (.rollback "s", guardEnv 3 "")]

theorem costGuard_bounded_committed :
    let g := Machine.run CostGuard.step (opened none 0) settlingCalls
    (∀ env, (g.load env).2.dailySpend + g.inFlight ≤ (g.load env).2.dailyBudget) ∧
      ∀ id, (guardEvents (opened none 0) settlingCalls).count (.settled id) ≤ 1 := by
  have hbounded := costGuard_bounded none 0 settlingCalls (fun _ h => by cases h) ?_
  · exact ⟨hbounded.1, hbounded.2.2.1 (by decide)⟩
  · refine ⟨⟨5000000, by norm_num⟩, ⟨15000000, by norm_num⟩,
      ⟨⟨4000000, by norm_num⟩, fun r hget => ?_⟩, trivial, trivial⟩
    have hreserved : (Machine.run CostGuard.step (opened none 0)
        [(.reserve (.finite 5), guardEnv 0 "r"),
          (.reserve (.finite 15), guardEnv 1 "s")]).reserved.get? "r" = some (5, 0) := by
      decide +kernel
    rw [← Option.some.inj (hreserved.symm.trans hget)]
    norm_num

/-- A reservation of 30 is refused, and the expired reservation of 5 is gone all the same. -/
theorem costGuard_refusedSweeps :
    let g := Machine.run CostGuard.step (opened none 0)
      [(.reserve (.finite 5), guardEnv 0 "r")]
    let c : GuardCall × GuardEnv := (.reserve (.finite 30), guardEnv 400 "s")
    (g.call c).error = some .budgetExceeded ∧ (g.reserved.get? "r").isSome ∧
      (g.step c).reserved.get? "r" = none := by
  decide +kernel

end Perpetua.Orchestrate

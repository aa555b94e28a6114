import Perpetua.Budget.Lemmas.Exclusion

/-!
# Theorems about the budget ledger

Over any sequence of calls, by any number of clients and with any clocks: the day's budget is never
over-committed, and when a stage marker stands for money that is still counted. Over any interleaving
of concurrent `execute` calls of one run: when the provider is called by one of them only.
-/

namespace Perpetua.Budget

variable {τ : Type} [LT τ] [DecidableLT τ] (L : Tier5BudgetLedger) (digest : String → String)

/-! ## The daily limit -/

/-- The counted amounts of a day stay within the limit, every run within its worst case, and a
terminal row holds nothing and never changes again. -/
theorem never_overcommits (calls : List (Call τ)) :
    (∀ day, (runCalls L digest calls).used day ≤ L.dailyLimitMicrousd) ∧
      ∀ r ∈ (runCalls L digest calls).runs,
        (∃ w, ReservedWith L digest calls r.runId w ∧
          0 ≤ r.settledMicrousd ∧ r.settledMicrousd ≤ w) ∧
        (r.state.terminal → r.heldMicrousd = 0 ∧
          ∀ more, (runCalls L digest (calls ++ more)).findRun r.runId = some r) := by
  refine ⟨(sound calls).within, fun r hr => ?_⟩
  obtain ⟨w, hres, hw⟩ := (sound calls).amounts r hr
  refine ⟨⟨w, hres, hw.settled_nonneg, hw.settled_le⟩, fun ht => ⟨hw.held_of_terminal ht, ?_⟩⟩
  exact fun more => findRun_of_mem (terminal_stays hr ht more)

/-! ## Stage markers -/

/-- Every call that inserts a marker leaves the run counted in full, and no released run has one. -/
structure DispatchesCounted (calls : List (Call τ)) : Prop where
  counted : ∀ pre c post runId stageName, calls = pre ++ c :: post →
    MarksNew (runCalls L digest pre) c runId stageName →
      ∃ r w, (runCalls L digest (pre ++ [c])).findRun runId = some r ∧
        ReservedWith L digest (pre ++ [c]) runId w ∧ CountedInFull w r
  unreleased : ∀ pre post, calls = pre ++ post → ∀ r ∈ (runCalls L digest pre).runs,
    r.state = .released → (runCalls L digest pre).hasStageMarkers r.runId = false

/-- A call that inserts a marker finds its run not released and, when it is settled, settled for all
that was reserved. -/
def MarkedWhileCounted (calls : List (Call τ)) : Prop :=
  ∀ pre c post runId stageName, calls = pre ++ c :: post →
    MarksNew (runCalls L digest pre) c runId stageName →
      ∀ r, (runCalls L digest pre).findRun runId = some r → r.state ≠ .released ∧
        (r.state = .settled → ReservedWith L digest pre runId r.settledMicrousd)

variable {L digest}

theorem MarkedWhileCounted.marksUnreleased {calls : List (Call τ)}
    (h : MarkedWhileCounted L digest calls) : MarksUnreleased L digest calls := by
  rintro pre c post runId stageName he hm r hr rfl
  exact (h pre c post _ _ he hm r (findRun_of_mem hr)).1

/-- A dispatch marker stands for a hold that is counted exactly when no marker is inserted for a run
that was released, or settled for less than it had reserved. -/
theorem dispatchesCounted_iff (calls : List (Call τ)) :
    DispatchesCounted L digest calls ↔ MarkedWhileCounted L digest calls := by
  constructor
  · intro h pre c post runId stageName he hm r hfind
    obtain ⟨r', w, hfind', hres, hfull⟩ := h.counted pre c post runId stageName he hm
    obtain ⟨s, hs, hs'⟩ := hm.findRun
    rw [hfind, Option.some.injEq] at hs
    rw [hs', Option.some.injEq] at hfind'
    subst hs hfind'
    by_cases hst : r.state = .reserved
    · exact ⟨by rw [hst]; nofun, fun h => by rw [hst] at h; cases h⟩
    · rw [if_neg hst] at hfull
      rcases hfull.state with hd | ⟨hd | hd, hw⟩
      · exact ⟨by rw [hd]; nofun, fun h => by rw [hd] at h; cases h⟩
      · refine ⟨by rw [hd]; nofun, fun _ => ?_⟩
        rcases hres.of_concat with hres | ⟨_, a, hop, _⟩
        · rwa [hw]
        · rw [hm.1] at hop; cases hop
      · exact ⟨by rw [hd]; nofun, fun h => by rw [hd] at h; cases h⟩
  · intro h
    refine ⟨fun pre c post runId stageName he hm => ?_, fun pre post he r hr hrel => ?_⟩
    · obtain ⟨r, hfind, hfind'⟩ := hm.findRun
      obtain ⟨hmem, rfl⟩ := findRun_eq_some hfind
      obtain ⟨hunrel, hsettled⟩ := h pre c post _ _ he hm r hfind
      obtain ⟨w, hres, hw⟩ := (sound pre).amounts r hmem
      refine ⟨_, w, hfind', hres.append [c], ?_⟩
      split
      · rename_i hst
        exact (Moves.withinWorstCase (.inr (.dispatch _ hst)) hw).countedInFull rfl nofun
      · rename_i hst
        refine hw.countedInFull ?_ fun hset => (hsettled hset).unique hres
        cases hr : r.state with
        | reserved => exact absurd hr hst
        | released => exact absurd hr hunrel
        | dispatched => rfl
        | settled => rfl
        | consumedUnknown => rfl
    · subst he
      by_contra hmark
      have := h.marksUnreleased.prefix.guarded.spent r hr (by simpa using hmark)
      rw [hrel] at this
      cases this

/-- Two clients: the second gives the hold back before the first marks its dispatch. -/
def releaseBeforeMark : List (Call ℕ) :=
  [⟨⟨.granted, fun _ => 0⟩, .reserve
      { runId := "run", idempotencyKey := "key", fingerprint := "request",
        worstCaseMicrousd := 250000, day := "2026-01-01" }⟩,
    ⟨⟨.granted, fun _ => 1⟩, .releasePreDispatch "run"⟩,
    ⟨⟨.granted, fun _ => 2⟩, .markDispatch "run" "draft"⟩]

theorem not_dispatchesCounted_releaseBeforeMark :
    ¬ DispatchesCounted ⟨5000000, by decide⟩ id releaseBeforeMark := by
  intro h
  have := h.unreleased releaseBeforeMark [] rfl
  revert this
  decide

/-! ## Idempotency -/

variable {ι : Type} [DecidableEq ι]

/-- The calls before their first step, over a ledger with any history. -/
def Service.initial (S : Service ι) (history : List (Call τ)) : System τ ι :=
  { db := runCalls S.ledger S.digest history }

/-- One call does all the provider I/O, and the others replay or raise. -/
structure DispatchedOnce (S : Service ι) (history : List (Call τ)) (steps : List (Action τ ι)) :
    Prop where
  oneCall : ∀ d ∈ (Machine.run S.step (S.initial history) steps).sent,
    ∀ d' ∈ (Machine.run S.step (S.initial history) steps).sent, d.call = d'.call
  nodup : (Machine.run S.step (S.initial history) steps).sent.Nodup
  /-- A stage goes to the next candidate only when the last one refused to serve it. -/
  oneService : ∀ d ∈ (Machine.run S.step (S.initial history) steps).sent,
    ∀ d' ∈ (Machine.run S.step (S.initial history) steps).sent,
      d ∉ (Machine.run S.step (S.initial history) steps).refused →
      d' ∉ (Machine.run S.step (S.initial history) steps).refused → d.stage = d'.stage → d = d'
  others : ∀ i, (∀ d ∈ (Machine.run S.step (S.initial history) steps).sent, d.call ≠ i) →
    ((Machine.run S.step (S.initial history) steps).phase i).finished →
      (Machine.run S.step (S.initial history) steps).phase i = .raised ∨
        ∃ result r, (Machine.run S.step (S.initial history) steps).phase i = .replayed result r ∧
          ∃ pre post, steps = pre ++ post ∧
            S.Stored (Machine.run S.step (S.initial history) pre).db result r

/-- The run is dispatched once if no call reserves it, still RESERVED, while another call is in its
runner. -/
theorem dispatchedOnce_of_admits (S : Service ι) (history : List (Call τ))
    (hkey : ∀ r ∈ (runCalls S.ledger S.digest history).runs,
      r.keyDigest = S.digest S.idempotencyKey ↔ r.runId = S.runId)
    (steps : List (Action τ ι)) (h : Machine.Along S.step S.Admits (S.initial history) steps) :
    DispatchedOnce S history steps := by
  have hinit : Exclusive S (S.initial history) :=
    ⟨⟨(sound history).runIds, owned history, hkey⟩, fun hs => absurd rfl hs, nofun, fun _ => trivial,
      nofun, List.nodup_nil, nofun⟩
  have hend := h.invariant (fun _ _ hs ha => hs.step ha) hinit
  refine ⟨hend.oneCall, hend.nodup, hend.oneService, fun i hi hfin => ?_⟩
  have hphase := hend.phases i
  cases hp : (Machine.run S.step (S.initial history) steps).phase i with
  | raised => exact Or.inl rfl
  | replayed result r => exact Or.inr ⟨result, r, rfl, S.run_replayed (fun _ => rfl) hp⟩
  | returned result r =>
      rw [hp] at hphase
      obtain ⟨d, hd, hcall⟩ := hphase
      exact absurd hcall (hi d hd)
  | _ => rw [hp] at hfin; cases hfin

/-- A recipe of one stage with one candidate. -/
def oneStage : PipelineRecipe where
  name := "deep_reasoning"
  stages := [{ name := "draft", models := ["glm"], maxTokens := 100 }]
  costReservationUsd := 1 / 4
  nonempty := by decide
  distinctNames := by decide
  distinctModels := by decide

/-- Two calls, `false` and `true`, of one run. -/
def twoCalls : Service Bool where
  ledger := ⟨5000000, by decide⟩
  digest := id
  recipe := oneStage
  runId := "run"
  idempotencyKey := "key"
  fingerprint := "request"
  explicitCapMicrousd _ := none
  candidateIsInScope _ _ := true

def grantedAt (now : ℕ) : CallEnv ℕ := ⟨.granted, fun _ => now⟩

/-- The second call comes when the run is settled. -/
theorem dispatchedOnce_second_after_first :
    DispatchedOnce twoCalls ([] : List (Call ℕ))
      [.reserve false (grantedAt 0) "2026-01-01", .commit false (grantedAt 1), .send false,
        .answer false (.ok ⟨"done", none, none⟩), .conclude false (grantedAt 2),
        .reserve true (grantedAt 3) "2026-01-01"] :=
  dispatchedOnce_of_admits twoCalls [] nofun _
    ⟨.inr (by decide), trivial, trivial, trivial, trivial, .inr (by decide +kernel), trivial⟩

/-- Both calls reserve before either marks its dispatch. -/
theorem not_dispatchedOnce_reserve_twice :
    ¬ DispatchedOnce twoCalls ([] : List (Call ℕ))
      [.reserve false (grantedAt 0) "2026-01-01", .reserve true (grantedAt 1) "2026-01-01",
        .commit false (grantedAt 2), .commit true (grantedAt 3), .send false, .send true] := by
  intro h
  have := h.oneCall ⟨false, "draft", "glm"⟩ (by decide +kernel) ⟨true, "draft", "glm"⟩
    (by decide +kernel)
  cases this

end Perpetua.Budget

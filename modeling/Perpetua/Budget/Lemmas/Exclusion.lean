import Perpetua.Budget.Execution
import Perpetua.Budget.Lemmas.Markers

/-!
# Concurrent calls of one run

The stored run is the only thing the calls exclude each other with: a call that reserves while the
run is still RESERVED enters the runner. `Exclusive` is the invariant of the interleavings in which
no call reserves at such a moment while another one is in its runner.
-/

namespace Perpetua.Budget

variable {τ ι : Type}

/-! ## The stored run -/

/-- The run id and the idempotency key name the same row, if any. -/
structure Keyed (S : Service ι) (db : LedgerDb τ) : Prop where
  runIds : (db.runs.map (·.runId)).Nodup
  owned : Owned db
  key : ∀ r ∈ db.runs, r.keyDigest = S.digest S.idempotencyKey ↔ r.runId = S.runId

/-- The stored run has left RESERVED. -/
def Left (S : Service ι) (db : LedgerDb τ) : Prop :=
  ∃ r ∈ db.runs, r.runId = S.runId ∧ r.state ≠ .reserved

theorem Moves.left {r r' : BudgetRun τ} (h : Moves r r') (hr : r.state ≠ .reserved) :
    r'.state ≠ .reserved := by
  rcases h with rfl | h
  · exact hr
  · cases h <;> nofun

variable {S : Service ι}

/-- The row under the key that is not RESERVED is the run's. -/
theorem Keyed.left_of_findKey {db : LedgerDb τ} (h : Keyed S db) {row : BudgetRun τ}
    (hrow : db.findKey (S.digest S.idempotencyKey) = some row) (hst : row.state ≠ .reserved) :
    Left S db := by
  obtain ⟨hmem, hkey⟩ := findKey_eq_some hrow
  exact ⟨row, hmem, (h.key row hmem).mp hkey, hst⟩

/-- Once the run has left RESERVED the key is taken by a row that is not RESERVED. -/
theorem Keyed.findKey_of_left {db : LedgerDb τ} (h : Keyed S db) (hleft : Left S db) :
    ∃ row, db.findKey (S.digest S.idempotencyKey) = some row ∧ row.state ≠ .reserved := by
  obtain ⟨r, hr, hid, hst⟩ := hleft
  cases hfind : db.findKey (S.digest S.idempotencyKey) with
  | none =>
      have := List.find?_eq_none.mp hfind r hr
      simp [(h.key r hr).mpr hid] at this
  | some row =>
      obtain ⟨hmem, hkey⟩ := findKey_eq_some hfind
      have he := mem_eq_of_runId h.runIds hmem hr (((h.key row hmem).mp hkey).trans hid.symm)
      exact ⟨row, rfl, he ▸ hst⟩

/-- A `mark_dispatch` that returns leaves the run out of RESERVED. -/
theorem Keyed.left_of_mark {db : LedgerDb τ} (h : Keyed S db) {env : CallEnv τ} {stageName : String}
    {u : Unit} (hok : (markDispatch env S.runId stageName db).2 = .ok u) :
    Left S (markDispatch env S.runId stageName db).1 := by
  rcases guardedTransaction_cases env db (markDispatchBody env.clock S.runId stageName) with
    ⟨e, he⟩ | ⟨db', u', _, hbody, he⟩
  · rw [markDispatch, he] at hok; cases hok
  · rw [markDispatch, he]
    unfold markDispatchBody at hbody
    split at hbody
    · cases hbody
    · rename_i marked hmark
      cases hbody
      -- The marker, old or new, belongs to a row: the one that the update takes out of RESERVED.
      have hrow : marked.runs = db.runs ∧ S.runId ∈ db.runs.map (·.runId) := by
        rcases insertMarker_cases hmark with ⟨rfl, hold⟩ | ⟨_, ⟨row, hrow⟩, rfl⟩
        · obtain ⟨s, hs, he⟩ := List.any_eq_true.mp hold
          simp only [Bool.and_eq_true, decide_eq_true_eq] at he
          exact ⟨rfl, he.1 ▸ h.owned s hs⟩
        · obtain ⟨hmem, hid⟩ := findRun_eq_some hrow
          exact ⟨rfl, List.mem_map.mpr ⟨row, hmem, hid⟩⟩
      obtain ⟨row, hmem, hid⟩ := List.mem_map.mp (hrow.1 ▸ hrow.2)
      refine ⟨_, List.mem_map_of_mem hmem, ?_, ?_⟩ <;> split
      · exact hid
      · exact hid
      · rintro ⟨⟩
      · rename_i hst
        intro hres
        exact hst (by simp [hid, hres])

section Ledger

variable [LT τ] [DecidableLT τ]

theorem Left.step {db : LedgerDb τ} (h : Left S db) (hn : (db.runs.map (·.runId)).Nodup)
    (c : Call τ) : Left S (step S.ledger S.digest db c) := by
  obtain ⟨r, hr, hid, hst⟩ := h
  rcases step_runs S.ledger S.digest c hn with
    ⟨g, hg, hmoves⟩ | ⟨a, row, _, _, hstep⟩
  · have hm := hmoves r hr
    exact ⟨g r, by rw [hg]; exact List.mem_map_of_mem hr, hm.sameRun.runId.trans hid, hm.left hst⟩
  · rw [hstep]; exact ⟨r, List.mem_append_left _ hr, hid, hst⟩

theorem Keyed.step {db : LedgerDb τ} (h : Keyed S db) (c : Call τ)
    (hown : ∀ a, c.op = .reserve a → a.idempotencyKey = S.idempotencyKey ∧ a.runId = S.runId) :
    Keyed S (step S.ledger S.digest db c) := by
  have howned := h.owned.step S.ledger S.digest h.runIds c
  rcases step_runs S.ledger S.digest c h.runIds with
    hmoves | ⟨a, row, hop, hins, hstep⟩
  · refine ⟨hmoves.runIds ▸ h.runIds, howned, fun r' hr' => ?_⟩
    obtain ⟨r, hr, hm⟩ := hmoves.mem hr'
    rw [hm.sameRun.keyDigest, hm.sameRun.runId]
    exact h.key r hr
  · rw [hstep] at howned ⊢
    refine ⟨hins.runIds h.runIds, howned, fun r hr => ?_⟩
    rcases List.mem_append.mp hr with hr | hr
    · exact h.key r hr
    · obtain ⟨hkey, hid⟩ := hown a hop
      rw [List.mem_singleton.mp hr, hins.keyDigest, hins.runId, hkey, hid]
      simp

end Ledger

/-! ## The runner -/

/-- The runner is past the stages `done` and, in the stage at hand, past the models `tried`. -/
structure At (recipe : PipelineRecipe) (p : Progress) (done : List PipelineStage)
    (stage : PipelineStage) (rest : List PipelineStage) (tried : List String) : Prop where
  recipe : recipe.stages = done ++ stage :: rest
  stages : p.stages = stage :: rest
  models : stage.models = tried ++ p.candidates

/-- Every request was for a stage that is done, or for the stage at hand and refused, or is pending. -/
def Sent (sent refused : List (ProviderCall ι)) (done : List PipelineStage) (stage : PipelineStage)
    (tried : List String) (pending : Option (ProviderCall ι)) : Prop :=
  ∀ d ∈ sent, d.stage ∈ done.map (·.name) ∨
    d.stage = stage.name ∧ d.model ∈ tried ∧ d ∈ refused ∨ pending = some d

/-- What is known of a call in the phase it is in. -/
def InPhase (S : Service ι) (s : System τ ι) (i : ι) : Phase → Prop
  | .running _ p => (∀ d ∈ s.sent, d.call = i) ∧ ∃ done stage rest tried,
      At S.recipe p done stage rest tried ∧ Sent s.sent s.refused done stage tried none
  | .committed _ p => (∀ d ∈ s.sent, d.call = i) ∧ Left S s.db ∧ ∃ done stage rest tried model others,
      At S.recipe p done stage rest tried ∧ p.candidates = model :: others ∧
        Sent s.sent s.refused done stage tried none
  | .waiting _ p => (∀ d ∈ s.sent, d.call = i) ∧ ∃ done stage rest tried model others,
      At S.recipe p done stage rest tried ∧ p.candidates = model :: others ∧
        ⟨i, stage.name, model⟩ ∈ s.sent ∧
        Sent s.sent s.refused done stage tried (some ⟨i, stage.name, model⟩)
  | .completed .. | .returned .. => ∃ d ∈ s.sent, d.call = i
  | _ => True

/-- The invariant of runs in which no two calls are in their runners at once. -/
structure Exclusive (S : Service ι) (s : System τ ι) : Prop where
  keyed : Keyed S s.db
  left : s.sent ≠ [] → Left S s.db
  alone : ∀ i j, (s.phase i).inRunner → (s.phase j).inRunner → i = j
  phases : ∀ i, InPhase S s i (s.phase i)
  oneCall : ∀ d ∈ s.sent, ∀ d' ∈ s.sent, d.call = d'.call
  nodup : s.sent.Nodup
  oneService : ∀ d ∈ s.sent, ∀ d' ∈ s.sent, d ∉ s.refused → d' ∉ s.refused →
    d.stage = d'.stage → d = d'

/-! ### The progress of one call -/

namespace At

variable {recipe : PipelineRecipe} {p : Progress} {done rest : List PipelineStage}
  {stage : PipelineStage} {tried others : List String} {model : String}

theorem enter (recipe : PipelineRecipe) : ∃ stage rest,
    At recipe (.enter recipe) [] stage rest [] := by
  obtain ⟨stage, rest, hst⟩ := List.exists_cons_of_ne_nil recipe.nonempty
  refine ⟨stage, rest, hst, hst, ?_⟩
  simp [Progress.enter, hst]

theorem current (h : At recipe p done stage rest tried) (hc : p.candidates = model :: others) :
    p.current = some (stage, rest, model) := by
  simp only [Progress.current, h.stages, hc]

theorem candidates_of_current (h : At recipe p done stage rest tried) {x : PipelineStage}
    {y : List PipelineStage} (hc : p.current = some (x, y, model)) :
    x = stage ∧ y = rest ∧ ∃ others, p.candidates = model :: others := by
  cases hp : p.candidates with
  | nil =>
      simp [Progress.current, h.stages, hp] at hc
  | cons m others =>
      rw [h.current hp, Option.some.injEq, Prod.mk.injEq, Prod.mk.injEq] at hc
      obtain ⟨rfl, rfl, rfl⟩ := hc
      exact ⟨rfl, rfl, others, rfl⟩

theorem next (h : At recipe p done stage rest tried) (hc : p.candidates = model :: others) :
    At recipe p.next done stage rest (tried ++ [model]) :=
  ⟨h.recipe, h.stages, by rw [h.models, hc]; simp [Progress.next, hc]⟩

/-- The runner after a stage that is not the last. -/
theorem record {after : PipelineStage} (h : At recipe p done stage (after :: rest) tried)
    (r : DispatchResult) :
    At recipe (p.record stage (after :: rest) model r) (done ++ [stage]) after rest [] :=
  ⟨by rw [h.recipe]; simp, rfl, rfl⟩

theorem stage_not_done (h : At recipe p done stage rest tried) :
    stage.name ∉ done.map (·.name) := by
  have := recipe.distinctNames
  rw [h.recipe, List.map_append, List.nodup_append] at this
  exact fun hm => this.2.2 _ hm _ (by simp) rfl

theorem model_not_tried (h : At recipe p done stage rest tried)
    (hc : p.candidates = model :: others) : model ∉ tried := by
  have := recipe.distinctModels stage (by rw [h.recipe]; simp)
  rw [h.models, hc, List.nodup_append] at this
  exact fun hm => this.2.2 _ hm _ (by simp) rfl

end At

/-! ### One step -/

theorem InPhase.of_db {s s' : System τ ι} {i : ι} {phase : Phase} (h : InPhase S s i phase)
    (hleft : Left S s.db → Left S s'.db) (hsent : s'.sent = s.sent) (href : s'.refused = s.refused) :
    InPhase S s' i phase := by
  cases phase with
  | committed held p =>
      obtain ⟨hcall, hl, hat⟩ := h
      exact ⟨hsent ▸ hcall, hleft hl, by rw [hsent, href]; exact hat⟩
  | running _ _ => simpa only [InPhase, hsent, href] using h
  | waiting _ _ => simpa only [InPhase, hsent, href] using h
  | completed _ _ => simpa only [InPhase, hsent] using h
  | returned _ _ => simpa only [InPhase, hsent] using h
  | _ => trivial

/-- A call outside the runner only needs its requests to stay on record. -/
theorem InPhase.of_sent {s s' : System τ ι} {i : ι} {phase : Phase} (h : InPhase S s i phase)
    (hout : phase.inRunner = false) (hsent : s.sent ⊆ s'.sent) : InPhase S s' i phase := by
  cases phase with
  | running _ _ => cases hout
  | committed _ _ => cases hout
  | waiting _ _ => cases hout
  | completed _ _ => exact h.imp fun d hd => ⟨hsent hd.1, hd.2⟩
  | returned _ _ => exact h.imp fun d hd => ⟨hsent hd.1, hd.2⟩
  | _ => trivial

namespace Exclusive

variable {s : System τ ι} {i : ι}

theorem others (h : Exclusive S s) (hi : (s.phase i).inRunner) :
    ∀ j, j ≠ i → (s.phase j).inRunner = false := by
  intro j hj
  by_contra hr
  exact hj (h.alone j i (by simpa using hr) hi)

variable [DecidableEq ι]

/-- The call `i` moves to a phase it may be in; the ledger may have changed under it. -/
theorem move (h : Exclusive S s) (db : LedgerDb τ) {phase : Phase} (hkeyed : Keyed S db)
    (hleft : Left S s.db → Left S db) (hphase : InPhase S { s with db } i phase)
    (hrun : phase.inRunner → ∀ j, j ≠ i → (s.phase j).inRunner = false) :
    Exclusive S ({ s with db }.move i phase) where
  keyed := hkeyed
  left := fun hs => hleft (h.left hs)
  alone := by
    intro j k hj hk
    simp only [System.move, Function.update_apply] at hj hk
    split at hj <;> split at hk
    · rename_i hji hki; rw [hji, hki]
    · rename_i hji hki; rw [hrun hj k hki] at hk; cases hk
    · rename_i hji hki; rw [hrun hk j hji] at hj; cases hj
    · exact h.alone j k hj hk
  phases := by
    intro j
    simp only [System.move, Function.update_apply]
    split
    · rename_i hji; rw [hji]; exact hphase
    · exact (h.phases j).of_db hleft rfl rfl
  oneCall := h.oneCall
  nodup := h.nodup
  oneService := h.oneService

/-- A call leaves the runner, or moves on outside it. -/
theorem leave (h : Exclusive S s) {phase : Phase} (hphase : InPhase S s i phase)
    (hrun : phase.inRunner = false) : Exclusive S (s.move i phase) :=
  h.move s.db h.keyed id hphase fun hr => by rw [hrun] at hr; cases hr

/-- The call in the runner sends a request, or learns that one was refused. -/
theorem log (h : Exclusive S s) (hi : (s.phase i).inRunner) {s' : System τ ι} (phase : Phase)
    (hmove : s'.phase = Function.update s.phase i phase) (hdb : s'.db = s.db)
    (hsent : s.sent ⊆ s'.sent) (hleft : Left S s.db ∨ s'.sent = s.sent)
    (hphase : InPhase S s' i phase) (hcall : ∀ d ∈ s'.sent, d.call = i) (hnodup : s'.sent.Nodup)
    (hone : ∀ d ∈ s'.sent, ∀ d' ∈ s'.sent, d ∉ s'.refused → d' ∉ s'.refused →
      d.stage = d'.stage → d = d') : Exclusive S s' where
  keyed := hdb ▸ h.keyed
  left := fun hs => hdb ▸ hleft.elim id fun he => h.left (he ▸ hs)
  alone := by
    intro j k hj hk
    have hin : ∀ {j}, (s'.phase j).inRunner → j = i := by
      intro j hj
      rw [hmove, Function.update_apply] at hj
      split at hj
      · assumption
      · exact h.alone j i hj hi
    rw [hin hj, hin hk]
  phases := by
    intro j
    rw [hmove, Function.update_apply]
    split
    · rename_i hji; rw [hji]; exact hphase
    · rename_i hji; exact (h.phases j).of_sent (h.others hi j hji) hsent
  oneCall := fun d hd d' hd' => (hcall d hd).trans (hcall d' hd').symm
  nodup := hnodup
  oneService := hone

/-- The candidate loop moves on to the next model. -/
theorem next (h : Exclusive S s) {held : ℤ} {p : Progress} (hp : s.phase i = .running held p)
    {stage : PipelineStage} {rest : List PipelineStage} {model : String}
    (hc : p.current = some (stage, rest, model)) : Exclusive S (s.move i (.running held p.next)) := by
  have hin : (s.phase i).inRunner := by rw [hp]; rfl
  have hphase := h.phases i
  rw [hp] at hphase
  obtain ⟨hcall, done, stage, rest, tried, hat, hsent⟩ := hphase
  obtain ⟨rfl, rfl, others, hm⟩ := hat.candidates_of_current hc
  refine h.move s.db h.keyed id ⟨hcall, done, _, _, _, hat.next hm, fun d hd => ?_⟩
    fun _ => h.others hin
  rcases hsent d hd with hd | ⟨hst, htr, href⟩ | hd
  · exact Or.inl hd
  · exact Or.inr (Or.inl ⟨hst, List.mem_append_left _ htr, href⟩)
  · cases hd

/-- The request goes out: the first for this stage that is not refused, and to a new model. -/
theorem send (h : Exclusive S s) {held : ℤ} {p : Progress} (hp : s.phase i = .committed held p) :
    Exclusive S ({ s with sent := s.sent ++ (p.providerCall i).toList }.move i
      (.waiting held p)) := by
  have hin : (s.phase i).inRunner := by rw [hp]; rfl
  have hphase := h.phases i
  rw [hp] at hphase
  obtain ⟨hcall, hleft, done, stage, rest, tried, model, others, hat, hm, hsent⟩ := hphase
  rw [Progress.providerCall, hat.current hm, Option.map_some, Option.toList_some]
  have hold : ∀ d ∈ s.sent, d.stage = stage.name → d.model ∈ tried ∧ d ∈ s.refused := by
    intro d hd hst
    rcases hsent d hd with hd | ⟨_, htr, href⟩ | hd
    · exact absurd (hst ▸ hd) hat.stage_not_done
    · exact ⟨htr, href⟩
    · cases hd
  refine h.log hin (.waiting held p) rfl rfl (List.subset_append_left _ _) (Or.inl hleft)
    ?_ ?_ ?_ ?_
  · refine ⟨?_, done, stage, rest, tried, model, others, hat, hm, by simp [System.move], fun d hd => ?_⟩
    · intro d hd
      rcases List.mem_append.mp hd with hd | hd
      · exact hcall d hd
      · rw [List.mem_singleton.mp hd]
    · rcases List.mem_append.mp hd with hd | hd
      · exact (hsent d hd).imp id fun hd => hd.imp id nofun
      · exact Or.inr (Or.inr (by rw [List.mem_singleton.mp hd]))
  · intro d hd
    rcases List.mem_append.mp hd with hd | hd
    · exact hcall d hd
    · rw [List.mem_singleton.mp hd]
  · refine List.nodup_append.mpr ⟨h.nodup, List.nodup_singleton _, ?_⟩
    rintro d hd _ hd' rfl
    rw [List.mem_singleton] at hd'
    subst hd'
    exact hat.model_not_tried hm (hold _ hd rfl).1
  · intro d hd d' hd' hr hr' hst
    rcases List.mem_append.mp hd with hd | hd <;> rcases List.mem_append.mp hd' with hd' | hd'
    · exact h.oneService d hd d' hd' hr hr' hst
    · rw [List.mem_singleton.mp hd'] at hst
      exact absurd (hold d hd hst).2 hr
    · rw [List.mem_singleton.mp hd] at hst
      exact absurd (hold d' hd' hst.symm).2 hr'
    · rw [List.mem_singleton.mp hd, List.mem_singleton.mp hd']

/-- The pending request was refused, so the candidate loop moves on. -/
theorem refuse (h : Exclusive S s) {held : ℤ} {p : Progress} (hp : s.phase i = .waiting held p) :
    Exclusive S ({ s with refused := s.refused ++ (p.providerCall i).toList }.move i
      (.running held p.next)) := by
  have hin : (s.phase i).inRunner := by rw [hp]; rfl
  have hphase := h.phases i
  rw [hp] at hphase
  obtain ⟨hcall, done, stage, rest, tried, model, others, hat, hm, hpend, hsent⟩ := hphase
  rw [Progress.providerCall, hat.current hm, Option.map_some, Option.toList_some]
  refine h.log hin (.running held p.next) rfl rfl (fun _ hd => hd) (Or.inr rfl)
    ⟨hcall, done, stage, rest, tried ++ [model], hat.next hm, fun d hd => ?_⟩ hcall h.nodup ?_
  · rcases hsent d hd with hd | ⟨hst, htr, href⟩ | hd
    · exact Or.inl hd
    · exact Or.inr (Or.inl ⟨hst, List.mem_append_left _ htr, List.mem_append_left _ href⟩)
    · cases hd
      exact Or.inr (Or.inl ⟨rfl, by simp, List.mem_append_right _ (List.mem_singleton.mpr rfl)⟩)
  · intro d hd d' hd' hr hr' hst
    exact h.oneService d hd d' hd' (fun hm => hr (List.mem_append_left _ hm))
      (fun hm => hr' (List.mem_append_left _ hm)) hst

/-- The pending request was served. -/
theorem result (h : Exclusive S s) {held : ℤ} {p : Progress} (hp : s.phase i = .waiting held p)
    (r : DispatchResult) : Exclusive S (s.move i (S.afterResult held p r)) := by
  have hin : (s.phase i).inRunner := by rw [hp]; rfl
  have hphase := h.phases i
  rw [hp] at hphase
  obtain ⟨hcall, done, stage, rest, tried, model, others, hat, hm, hpend, hsent⟩ := hphase
  have hdone : ∀ d ∈ s.sent, d.stage ∈ (done ++ [stage]).map (·.name) := by
    intro d hd
    rw [List.map_append, List.mem_append]
    rcases hsent d hd with hd | ⟨hst, _⟩ | hd
    · exact Or.inl hd
    · exact Or.inr (by simp [hst])
    · cases hd; exact Or.inr (by simp)
  simp only [Service.afterResult, hat.current hm]
  split
  · exact h.leave trivial rfl
  · cases rest with
    | nil =>
        rw [if_pos rfl]
        exact h.leave ⟨_, hpend, rfl⟩ rfl
    | cons after rest =>
        rw [if_neg (List.cons_ne_nil _ _)]
        refine h.move s.db h.keyed id ⟨hcall, _, _, _, _, hat.record r, fun d hd => ?_⟩
          fun _ => h.others hin
        exact Or.inl (hdone d hd)

section Step

variable [LT τ] [DecidableLT τ]

/-- A ledger transaction of this run, from which the call moves on. -/
theorem transact (h : Exclusive S s) (c : Call τ)
    (hown : ∀ a, c.op = .reserve a → a.idempotencyKey = S.idempotencyKey ∧ a.runId = S.runId)
    {phase : Phase}
    (hphase : InPhase S { s with db := Budget.step S.ledger S.digest s.db c } i phase)
    (hrun : phase.inRunner → ∀ j, j ≠ i → (s.phase j).inRunner = false) :
    Exclusive S ({ s with db := Budget.step S.ledger S.digest s.db c }.move i phase) :=
  h.move _ (h.keyed.step c hown) (fun hl => hl.step h.keyed.runIds c) hphase hrun

theorem commit (h : Exclusive S s) {held : ℤ} {p : Progress} (hp : s.phase i = .running held p)
    {stage : PipelineStage} {rest : List PipelineStage} {model : String} {env : CallEnv τ} {u : Unit}
    (hc : p.current = some (stage, rest, model))
    (hok : (markDispatch env S.runId stage.name s.db).2 = .ok u) :
    Exclusive S ({ s with db := (markDispatch env S.runId stage.name s.db).1 }.move i
      (.committed held p)) := by
  have hin : (s.phase i).inRunner := by rw [hp]; rfl
  have hphase := h.phases i
  rw [hp] at hphase
  obtain ⟨hcall, done, stage, rest, tried, hat, hsent⟩ := hphase
  obtain ⟨rfl, rfl, others, hm⟩ := hat.candidates_of_current hc
  exact h.transact ⟨env, .markDispatch S.runId _⟩ nofun
    ⟨hcall, h.keyed.left_of_mark hok, done, _, _, _, _, _, hat, hm, hsent⟩ fun _ => h.others hin

end Step

end Exclusive

/-! ### Admission -/

/-- A run that has left RESERVED is never reserved again. -/
theorem Keyed.reserve_of_left {db : LedgerDb τ} (h : Keyed S db) (hleft : Left S db) {i : ι}
    {env : CallEnv τ} {day : String} {r : Reservation}
    (hok : (reserve S.ledger S.digest env (S.reserveArgs i day) db).2 = .ok r) :
    r.state ≠ .reserved := by
  obtain ⟨row, hrow, hst⟩ := h.findKey_of_left hleft
  rcases reserve_cases S.ledger S.digest env (S.reserveArgs i day) db with
    ⟨_, hres⟩ | ⟨row', hins, _⟩
  · obtain ⟨row', hrow', rfl⟩ := hres r hok
    rw [show (S.reserveArgs i day).idempotencyKey = S.idempotencyKey from rfl, hrow] at hrow'
    cases hrow'
    exact hst
  · have := hins.newKey
    rw [show (S.reserveArgs i day).idempotencyKey = S.idempotencyKey from rfl, hrow] at this
    cases this

section Step

variable [DecidableEq ι] [LT τ] [DecidableLT τ] {s : System τ ι}

/-- A call reserves only when no other one is in its runner, or when the stored run has left
RESERVED. -/
def Service.Admits (S : Service ι) (s : System τ ι) : Action τ ι → Prop
  | .reserve i _ _ =>
      (∃ row, s.db.findKey (S.digest S.idempotencyKey) = some row ∧ row.state ≠ .reserved) ∨
        ∀ j, j ≠ i → (s.phase j).inRunner = false
  | _ => True

theorem Exclusive.reserve (h : Exclusive S s) {i : ι} {env : CallEnv τ} {day : String}
    (hadm : S.Admits s (.reserve i env day)) : Exclusive S (S.stepReserve s i env day) := by
  have hown : ∀ a, (⟨env, .reserve (S.reserveArgs i day)⟩ : Call τ).op = .reserve a →
      a.idempotencyKey = S.idempotencyKey ∧ a.runId = S.runId := by
    intro a ha; cases ha; exact ⟨rfl, rfl⟩
  unfold Service.stepReserve
  split
  rename_i db result hres
  have hdb : db = step S.ledger S.digest s.db ⟨env, .reserve (S.reserveArgs i day)⟩ := by
    show db = (Budget.reserve S.ledger S.digest env (S.reserveArgs i day) s.db).1
    rw [hres]
  subst hdb
  cases result with
  | error e => exact h.transact _ hown trivial nofun
  | ok r =>
      dsimp only
      split
      · exact h.transact _ hown trivial nofun
      · rename_i hst
        have hleft : ¬ Left S s.db := fun hl =>
          absurd (not_not.mp hst) (h.keyed.reserve_of_left hl (r := r) (by rw [hres]))
        have hnone : s.sent = [] := by
          by_contra hs
          exact hleft (h.left hs)
        obtain ⟨stage, rest, hat⟩ := At.enter S.recipe
        refine h.transact _ hown ⟨?_, [], stage, rest, [], hat, ?_⟩ fun _ => ?_
        · rw [hnone]; exact nofun
        · intro d hd; rw [hnone] at hd; cases hd
        · exact hadm.resolve_left fun ⟨row, hrow, hrs⟩ => hleft (h.keyed.left_of_findKey hrow hrs)

/-- The step of the invariant. -/
theorem Exclusive.step (h : Exclusive S s) {a : Action τ ι} (hadm : S.Admits s a) :
    Exclusive S (S.step s a) := by
  cases a with
  | reserve i env day =>
      simp only [Service.step]
      split
      · exact h.reserve hadm
      · exact h
  | skip i =>
      simp only [Service.step]
      split
      · rename_i held p hp
        split
        · exact h.leave trivial rfl
        · split
          · exact h
          · exact h.next hp ‹_›
      · exact h
  | decline i fallbackSafe =>
      simp only [Service.step]
      split
      · rename_i held p hp
        split
        · split
          · cases fallbackSafe with
            | true => exact h.next hp ‹_›
            | false => exact h.leave trivial rfl
          · exact h
        · exact h
      · exact h
  | commit i env =>
      simp only [Service.step]
      split
      · rename_i held p hp
        split
        · rename_i stage rest model hc
          split
          · split
            · rename_i u hok
              exact h.commit hp hc hok
            · exact h.transact ⟨env, .markDispatch S.runId _⟩ nofun trivial nofun
          · exact h
        · exact h
      · exact h
  | send i =>
      simp only [Service.step]
      split
      · exact h.send ‹_›
      · exact h
  | answer i a =>
      simp only [Service.step, Service.stepAnswer]
      split
      · rename_i held p hp
        cases a with
        | ok r => exact h.result hp r
        | error => exact h.leave trivial rfl
        | unavailable fallbackSafe =>
            cases fallbackSafe with
            | true => exact h.refuse hp
            | false => exact h.leave trivial rfl
      · exact h
  | fail i =>
      simp only [Service.step]
      split
      · exact h.leave trivial rfl
      · exact h.leave trivial rfl
      · exact h.leave trivial rfl
      · exact h
  | hasStageMarkers i access =>
      simp only [Service.step]
      split
      · split
        · exact h.leave trivial rfl
        · exact h.leave trivial rfl
      · exact h
  | conclude i env =>
      simp only [Service.step, Service.stepConclude]
      split
      · exact h.transact ⟨env, .settle S.runId (some 0)⟩ nofun trivial nofun
      · exact h.transact ⟨env, .releasePreDispatch S.runId⟩ nofun trivial nofun
      · rename_i held result hp
        have hdone := h.phases i
        rw [hp] at hdone
        split
        · exact h.transact ⟨env, .settle S.runId _⟩ nofun hdone nofun
        · exact h.transact ⟨env, .settle S.runId _⟩ nofun trivial nofun
      · exact h
  | abort i =>
      simp only [Service.step]
      split
      · exact h
      · exact h.leave trivial rfl
  | recoverExpired env before =>
      have hstep := h.keyed.step ⟨env, .recoverExpired before⟩ nofun
      exact ⟨hstep, fun hs => (h.left hs).step h.keyed.runIds ⟨env, .recoverExpired before⟩, h.alone,
        fun i => (h.phases i).of_db (fun hl => hl.step h.keyed.runIds ⟨env, .recoverExpired before⟩)
          rfl rfl, h.oneCall, h.nodup, h.oneService⟩

/-! ### Replays -/

/-- What a replay returns: the run as stored, past RESERVED. -/
def Service.Stored (S : Service ι) (db : LedgerDb τ) (result : PipelineResult) (r : Reservation) :
    Prop :=
  result = S.replay ∧ ∃ row, db.findKey (S.digest S.idempotencyKey) = some row ∧
    row.state ≠ .reserved ∧ r = row.toReservation

omit [LT τ] [DecidableLT τ] in
theorem System.phase_move {i j : ι} {phase : Phase} {result : PipelineResult} {r : Reservation}
    (h : (s.move j phase).phase i = .replayed result r) (hp : phase ≠ .replayed result r) :
    s.phase i = .replayed result r := by
  simp only [System.move, Function.update_apply] at h
  split at h
  · exact absurd h hp
  · exact h

/-- A call replays only by reserving. -/
theorem Service.step_replayed {a : Action τ ι} {i : ι} {result : PipelineResult} {r : Reservation}
    (h : (S.step s a).phase i = .replayed result r) :
    s.phase i = .replayed result r ∨ S.Stored s.db result r := by
  cases a with
  | reserve j env day =>
      simp only [Service.step] at h
      split at h
      · unfold Service.stepReserve at h
        split at h
        rename_i db answer hres
        cases answer with
        | error e => exact Or.inl (System.phase_move (s := { s with db }) h nofun)
        | ok r' =>
            dsimp only at h
            split at h
            · rename_i hst
              by_cases he : Phase.replayed S.replay r' = .replayed result r
              · cases he
                refine Or.inr ⟨rfl, ?_⟩
                rcases reserve_cases S.ledger S.digest env (S.reserveArgs j day)
                  s.db with ⟨_, hstored⟩ | ⟨row, hins, hres'⟩
                · obtain ⟨row, hrow, rfl⟩ := hstored r (by rw [hres])
                  exact ⟨row, hrow, hst, rfl⟩
                · rw [hres] at hres'
                  cases hres'
                  exact absurd hins.state hst
              · exact Or.inl (System.phase_move (s := { s with db }) h he)
            · exact Or.inl (System.phase_move (s := { s with db }) h nofun)
      · exact Or.inl h
  | skip j =>
      simp only [Service.step] at h
      split at h
      · split at h
        · exact Or.inl (System.phase_move h nofun)
        · split at h
          · exact Or.inl h
          · exact Or.inl (System.phase_move h nofun)
      · exact Or.inl h
  | decline j fallbackSafe =>
      simp only [Service.step] at h
      split at h
      · split at h
        · split at h
          · exact Or.inl (System.phase_move h (by split <;> nofun))
          · exact Or.inl h
        · exact Or.inl h
      · exact Or.inl h
  | commit j env =>
      simp only [Service.step] at h
      split at h
      · split at h
        · split at h
          · split at h <;> exact Or.inl (System.phase_move (s := { s with db := _ }) h nofun)
          · exact Or.inl h
        · exact Or.inl h
      · exact Or.inl h
  | send j =>
      simp only [Service.step] at h
      split at h
      · exact Or.inl (System.phase_move (s := { s with sent := _ }) h nofun)
      · exact Or.inl h
  | answer j a =>
      simp only [Service.step, Service.stepAnswer] at h
      split at h
      · split at h
        · refine Or.inl (System.phase_move h ?_)
          unfold Service.afterResult
          split
          · nofun
          · split
            · nofun
            · dsimp only; split <;> nofun
        · exact Or.inl (System.phase_move h nofun)
        · exact Or.inl (System.phase_move h nofun)
        · exact Or.inl (System.phase_move (s := { s with refused := _ }) h nofun)
      · exact Or.inl h
  | fail j =>
      simp only [Service.step] at h
      split at h
      · exact Or.inl (System.phase_move h nofun)
      · exact Or.inl (System.phase_move h nofun)
      · exact Or.inl (System.phase_move h nofun)
      · exact Or.inl h
  | hasStageMarkers j access =>
      simp only [Service.step] at h
      split at h
      · split at h <;> exact Or.inl (System.phase_move h nofun)
      · exact Or.inl h
  | conclude j env =>
      simp only [Service.step, Service.stepConclude] at h
      split at h
      · exact Or.inl (System.phase_move (s := { s with db := _ }) h nofun)
      · exact Or.inl (System.phase_move (s := { s with db := _ }) h nofun)
      · split at h <;> exact Or.inl (System.phase_move (s := { s with db := _ }) h nofun)
      · exact Or.inl h
  | abort j =>
      simp only [Service.step] at h
      split at h
      · exact Or.inl h
      · exact Or.inl (System.phase_move h nofun)
  | recoverExpired env before => exact Or.inl h

/-- A call in a replayed phase returned what was stored at some point of the run. -/
theorem Service.run_replayed {s : System τ ι} (hs : ∀ i, s.phase i = .start)
    {steps : List (Action τ ι)} {i : ι} {result : PipelineResult} {r : Reservation}
    (h : (Machine.run S.step s steps).phase i = .replayed result r) :
    ∃ pre post, steps = pre ++ post ∧ S.Stored (Machine.run S.step s pre).db result r := by
  induction steps using List.reverseRecOn with
  | nil => rw [Machine.run_nil, hs i] at h; cases h
  | append_singleton steps a ih =>
      rw [Machine.run_append] at h
      rcases S.step_replayed h with hold | hnew
      · obtain ⟨pre, post, rfl, hst⟩ := ih hold
        exact ⟨pre, post ++ [a], by simp, hst⟩
      · exact ⟨steps, [a], rfl, hnew⟩

end Step

end Perpetua.Budget

import Perpetua.Pipeline.Lemmas.Order
import Perpetua.Pipeline.Lemmas.Run

/-!
# Governed runs

Every run over an accepted configuration dispatches only under a valid approval, in the order of the
recipe and within its token budget, whatever the dispatcher does.
-/

namespace Perpetua.Pipeline

open Budget (PipelineResult)

variable [PyRuntime]

/-- What holds of the outcome and of the events of one call. -/
structure Governed (runner : TieredPipelineRunner) (call : Call)
    (outcome : Except RunError PipelineResult) (log : List Event) : Prop where
  /-- A dispatch comes after the approval and the gate, to a backend in the scope. -/
  authorised : ∀ pre d post, log = pre ++ .dispatch d :: post →
    .approved ∈ pre ∧ .permitted ∈ pre ∧
      (Gate.gatePermits call.gate (some pipelineTier)).1 = true ∧
      ∃ recipe approval, runner.recipe call.recipeName = .ok recipe ∧
        call.approval = some approval ∧ validateApproval call recipe = .ok approval ∧
        InScope runner.sources approval d.model
  /-- At most one candidate returns a result for a stage. -/
  once : ∀ name, returnsFor log name ≤ 1
  /-- A dispatch is for a stage of the recipe; the stages before it have returned a text, and no
  later stage has been dispatched. -/
  ordered : ∀ recipe, runner.recipe call.recipeName = .ok recipe →
    ∀ pre d post, log = pre ++ .dispatch d :: post →
      ∃ before stage after, recipe.stages = before ++ stage :: after ∧ d.stage = stage.name ∧
        d.model ∈ stage.models ∧ (∀ s ∈ before, ∃ text, Returned pre s text) ∧
        ∀ d', .dispatch d' ∈ pre → ∃ s ∈ before ++ [stage], d'.stage = s.name
  /-- The output that a stage reads from is there, and is what that stage returned. -/
  upstream : ∀ recipe, runner.recipe call.recipeName = .ok recipe →
    ∀ pre stage outputs post, log = pre ++ .prompt stage outputs :: post →
      ∀ source ∈ stage.inputFrom, ∃ text s, Entries.get? outputs source = some text ∧
        s ∈ recipe.stages ∧ s.name = source ∧ Returned pre s text
  noKeyError : outcome ≠ .error .keyError
  /-- The stages completed fit the recipe, and the recipe fits the approval. -/
  capped : ∀ recipe, runner.recipe call.recipeName = .ok recipe →
    requestedTokens (completed log) ≤ recipe.maxTotalTokens ∧
      ∀ approval, validateApproval call recipe = .ok approval →
        (recipe.maxTotalTokens : ℤ) ≤ approval.maxTokens

omit [PyRuntime] in
theorem validateApproval_ok {call : Call} {recipe : PipelineRecipe} {approval : PipelineApproval}
    (h : validateApproval call recipe = .ok approval) :
    call.approval = some approval ∧ (recipe.maxTotalTokens : ℤ) ≤ approval.maxTokens := by
  unfold validateApproval at h
  split at h
  · cases h
  · rename_i a ha
    simp only [Except.bind_eq_ok, Except.check_eq_ok] at h
    obtain ⟨revoked, -, -, -, -, -, -, -, -, hbudget, -, h⟩ := h
    cases h
    exact ⟨ha, not_lt.mp hbudget⟩

/-- The stages completed are the first ones of the recipe, so they fit its cap. -/
theorem Follows.completed_le {s : Sources} {call : Call} {recipe : PipelineRecipe}
    {approval : PipelineApproval} {log : List Event} {models : List (String × List String)}
    (h : Follows s call recipe approval log) (ha : RecipeAccepted models recipe) :
    requestedTokens (completed log) ≤ recipe.maxTotalTokens := by
  obtain ⟨rest, hrest⟩ := h.done_prefix
  have hcap := ha.capped
  rw [← hrest, done_position, requestedTokens, List.map_append, List.sum_append] at hcap
  exact (Nat.le_add_right _ _).trans hcap

/-- The dispatcher may answer anything at any time. -/
theorem run_governed (runner : TieredPipelineRunner) (call : Call) :
    Governed runner call (runner.run call).1 (runner.run call).2 := by
  have houtcome := run_outcome runner call
  generalize runner.run call = r at houtcome ⊢
  cases houtcome with
  | early he =>
      refine ⟨?_, ?_, ?_, ?_, fun h => he (Except.error.inj h), ?_⟩
      · intro pre d post h
        cases pre <;> cases h
      · intro name
        exact Nat.zero_le _
      · intro recipe _ pre d post h
        cases pre <;> cases h
      · intro recipe _ pre stage outputs post h
        cases pre <;> cases h
      · intro recipe _
        exact ⟨Nat.zero_le _, fun approval h => (validateApproval_ok h).2⟩
  | @late recipe approval outcome log hr happroval hf hne =>
      have haccepted := recipe_accepted hr
      have hnames := haccepted.stages.distinct
      have hrecipe : ∀ r, runner.recipe call.recipeName = .ok r → r = recipe := by
        intro r h
        rw [hr] at h
        exact (Except.ok.inj h).symm
      refine ⟨?_, ?_, ?_, ?_, hne, ?_⟩
      · intro pre d post he
        obtain ⟨hpre, hpermitted, -, stage, -, -, -, hscope⟩ := hf.at he
        have hmem := (permitted_position pre).mp hpermitted
        obtain ⟨happroved, hgate⟩ := hpre.gated hmem
        exact ⟨happroved, hmem, hgate, recipe, approval, hr, (validateApproval_ok happroval).1,
          happroval, hscope⟩
      · intro name
        rw [hf.returnsFor_eq]
        exact List.nodup_iff_count_le_one.mp (hf.finished_nodup hnames) name
      · intro recipe' h' pre d post he
        obtain rfl := hrecipe _ h'
        obtain ⟨hpre, -, -, stage, ⟨after, hat⟩, hstage, hmodel, -⟩ := hf.at he
        refine ⟨_, stage, after, by simpa using hat.symm, hstage, hmodel, ?_, ?_⟩
        · intro s hs
          obtain ⟨text, -, hreturned⟩ := hpre.outputs hnames hs
          exact ⟨text, hreturned⟩
        · intro d' hd'
          rcases hpre.dispatched hd' with ⟨s, hs, hd⟩ | ⟨s, hat', hd⟩
          · exact ⟨s, List.mem_append_left _ hs, hd⟩
          · obtain rfl := hat'.unique ⟨after, hat⟩
            exact ⟨s, List.mem_append_right _ (List.mem_singleton_self s), hd⟩
      · intro recipe' h' pre stage outputs post he source hsource
        obtain rfl := hrecipe _ h'
        obtain ⟨hpre, -, -, ⟨after, hat⟩, rfl⟩ := hf.at he
        have hearlier := haccepted.stages.earlier _ stage after (by simpa using hat.symm) source
          hsource
        obtain ⟨s, hs, rfl⟩ := List.mem_map.mp hearlier
        obtain ⟨text, htext, hreturned⟩ := hpre.outputs hnames hs
        exact ⟨text, s, htext, hpre.done_prefix.subset hs, rfl, hreturned⟩
      · intro recipe' h'
        obtain rfl := hrecipe _ h'
        exact ⟨hf.completed_le haccepted, fun approval h => (validateApproval_ok h).2⟩

end Perpetua.Pipeline

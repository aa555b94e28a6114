import Perpetua.Pipeline.Lemmas.Protocol

/-!
# Runs follow the order

The candidate loop, the stage loop and `run` itself, each by the events it adds to the log.
-/

namespace Perpetua.Pipeline

open Except (bind_eq_ok check_eq_ok)
open TieredPipelineRunner

variable [PyRuntime] {runner : TieredPipelineRunner} {call : Call} {recipe : PipelineRecipe}
  {approval : PipelineApproval}

/-! ## Candidates -/

theorem candidateIsInScope_ok {model : String}
    (h : runner.candidateIsInScope approval model = .ok true) :
    InScope runner.sources approval model := by
  obtain ⟨backend, hb, h⟩ := bind_eq_ok.mp h
  obtain ⟨b, hget, rfl⟩ : ∃ b, Entries.get? runner.loaded.modelBackends model = some b ∧
      b = backend := by
    unfold candidateBackend at hb
    split at hb
    · rename_i b hget
      exact ⟨b, hget, (check_eq_ok.mp hb).2 |> Except.ok.inj⟩
    · cases hb
  obtain ⟨-, backend, hbackend, rfl⟩ := (loadAndValidate_ok runner.accepted).backends model b hget
  simp only [Except.ok.injEq, List.contains_iff_mem, List.mem_map, List.mem_filter] at h
  obtain ⟨item, ⟨hitem, -⟩, heq⟩ := h
  exact ⟨backend, hbackend, item, hitem, heq⟩

/-- A candidate of an accepted recipe has a backend. -/
theorem candidateIsInScope_defined (approval : PipelineApproval) {name : String}
    (hr : runner.recipe name = .ok recipe)
    {stage : PipelineStage} (hs : stage ∈ recipe.stages) {model : String}
    (hm : model ∈ stage.models) : ∃ b, runner.candidateIsInScope approval model = .ok b := by
  have hloaded := loadAndValidate_ok runner.accepted
  have hget : Entries.get? runner.loaded.recipes name = some recipe := by
    unfold TieredPipelineRunner.recipe at hr
    split at hr
    · cases hr
      assumption
    · cases hr
  obtain ⟨a, ha⟩ := (hloaded.recipes name recipe hget).stages.aliased stage hs
  obtain ⟨b, hb⟩ := Option.ne_none_iff_exists'.mp (hloaded.listed a _ ha model hm)
  simp [candidateIsInScope, candidateBackend, hb, (hloaded.backends model b hb).1, bind, Except.bind]

theorem recipe_accepted {name : String} (hr : runner.recipe name = .ok recipe) :
    RecipeAccepted runner.loaded.models recipe := by
  unfold TieredPipelineRunner.recipe at hr
  split at hr
  · cases hr
    exact (loadAndValidate_ok runner.accepted).recipes name recipe ‹_›
  · cases hr

/-- `log'` follows, and the same stages are done as after `log`. -/
structure Within (runner : TieredPipelineRunner) (call : Call) (recipe : PipelineRecipe)
    (approval : PipelineApproval) (log log' : List Event) : Prop where
  follows : Follows runner.sources call recipe approval log'
  permitted : (position log').permitted = (position log).permitted
  done : (position log').done = (position log).done
  outputs : (position log').outputs = (position log).outputs

theorem Within.trans {log log' log'' : List Event}
    (h : Within runner call recipe approval log log')
    (h' : Within runner call recipe approval log' log'') :
    Within runner call recipe approval log log'' :=
  ⟨h'.follows, h'.permitted.trans h.permitted, h'.done.trans h.done, h'.outputs.trans h.outputs⟩

/-- A line of the trace file changes nothing. -/
theorem emitTrace_within {log log' : List Event} {stage model : String} {status : TraceStatus}
    (h : call.emitTrace log stage model status = some log')
    (hf : Follows runner.sources call recipe approval log)
    (hs : ∀ d, (position log).status ≠ .called d) :
    Within runner call recipe approval log log' ∧
      (position log').status = (position log).status := by
  unfold Call.emitTrace at h
  split at h
  · cases h
  · cases h
    have hf' := hf.snoc (e := .trace stage model status) hs
    exact ⟨⟨hf', by simp [Position.advance], by simp [Position.advance],
      by simp [Position.advance]⟩, by simp [Position.advance]⟩

/-- A call of the dispatcher and its answer. -/
theorem dispatch_within {log : List Event} {stage : PipelineStage} {d : Dispatch}
    (hf : Follows runner.sources call recipe approval log) (hp : (position log).permitted)
    (hs : (position log).status = .trying) (hat : (position log).AtHand recipe stage)
    (hd : d.stage = stage.name) (hm : d.model ∈ stage.models)
    (hscope : InScope runner.sources approval d.model) :
    let a := call.dispatch (log ++ [.dispatch d])
    let log' := log ++ [.dispatch d, .answer d a]
    Within runner call recipe approval log log' ∧
      (position log').status = Status.answered d a := by
  intro a log'
  have hcall := hf.snoc (e := .dispatch d) ⟨hp, hs, stage, hat, hd, hm, hscope⟩
  have hanswer := hcall.snoc (e := .answer d a) ⟨by simp [Position.advance], rfl⟩
  have hlog : log' = log ++ [.dispatch d] ++ [.answer d a] := by simp [log']
  rw [hlog]
  exact ⟨⟨hanswer, by simp [Position.advance], by simp [Position.advance],
    by simp [Position.advance]⟩, by simp [Position.advance]⟩

/-- What the end of the candidate loop says about the log. -/
def TieredPipelineRunner.CandidatesEnd.Left (stage : PipelineStage) (log : List Event) :
    CandidatesEnd → Prop
  | .served _ result => ∃ d, (position log).status = .served d result.text ∧ d.stage = stage.name
  | .raised e => e = .traceFile ∨ e = .dispatcher
  | .exhausted _ => True

/-- What the candidate loop leaves behind. -/
theorem tryCandidates_within (hr : runner.recipe call.recipeName = .ok recipe)
    {stage : PipelineStage} (prompt : String) {models : List String} (inScope : Bool)
    {log : List Event} (hf : Follows runner.sources call recipe approval log)
    (hp : (position log).permitted) (hs : (position log).status = .trying)
    (hat : (position log).AtHand recipe stage) (hm : models ⊆ stage.models) :
    let r := runner.tryCandidates call approval stage prompt models inScope log
    Within runner call recipe approval log r.2 ∧ r.1.Left stage r.2 := by
  induction models generalizing inScope log with
  | nil => exact ⟨⟨hf, rfl, rfl, rfl⟩, trivial⟩
  | cons model models ih =>
      obtain ⟨hmodel, hmodels⟩ := List.cons_subset.mp hm
      have hstage : stage ∈ recipe.stages := hat.subset (List.mem_append_right _ (by simp))
      obtain ⟨b, hb⟩ := candidateIsInScope_defined approval hr hstage hmodel
      -- the rest of the loop after a log at which the stage is still open
      have hrest : ∀ inScope log', Within runner call recipe approval log log' →
          (position log').status = .trying →
          let r := runner.tryCandidates call approval stage prompt models inScope log'
          Within runner call recipe approval log r.2 ∧ r.1.Left stage r.2 := by
        intro inScope log' hw hstatus
        have hnext := ih inScope hw.follows (by rwa [hw.permitted]) hstatus
          (by rwa [Position.AtHand, hw.done]) hmodels
        exact ⟨hw.trans hnext.1, hnext.2⟩
      rw [tryCandidates, hb]
      cases b with
      | false =>
          simp only
          split
          · exact ⟨⟨hf, rfl, rfl, rfl⟩, .inl rfl⟩
          · rename_i log' htrace
            obtain ⟨hw, hstatus⟩ := emitTrace_within htrace hf (by simp [hs])
            exact hrest _ _ hw (hstatus.trans hs)
      | true =>
          obtain ⟨hw, hstatus⟩ := dispatch_within (d := ⟨model, prompt, stage.maxTokens, stage.name⟩)
            hf hp hs hat rfl hmodel (candidateIsInScope_ok hb)
          have hcalled := fun d h => Status.answered_ne_called _ _ d (hstatus.symm.trans h)
          simp only
          split
          · rename_i result ha
            rw [ha] at hw hstatus ⊢
            exact ⟨hw, _, hstatus, rfl⟩
          · rename_i ha
            split
            · exact ⟨hw, .inl rfl⟩
            · rename_i log' htrace
              obtain ⟨hw', hstatus'⟩ := emitTrace_within htrace hw.follows hcalled
              have htrying := hstatus'.trans hstatus
              rw [ha] at htrying
              exact hrest _ _ (hw.trans hw') htrying
          · split
            · exact ⟨hw, .inl rfl⟩
            · rename_i log' htrace
              exact ⟨hw.trans (emitTrace_within htrace hw.follows hcalled).1, .inr rfl⟩
          · split
            · exact ⟨hw, .inl rfl⟩
            · rename_i log' htrace
              exact ⟨hw.trans (emitTrace_within htrace hw.follows hcalled).1, .inr rfl⟩
          · exact ⟨hw, .inr rfl⟩

/-! ## Stages -/

/-- Between two stages: the call follows the order and has recorded the outputs in `p`. -/
structure Between (runner : TieredPipelineRunner) (call : Call) (recipe : PipelineRecipe)
    (approval : PipelineApproval) (done : List PipelineStage) (p : Progress) (log : List Event) :
    Prop where
  follows : Follows runner.sources call recipe approval log
  permitted : (position log).permitted
  done : (position log).done = done
  outputs : (position log).outputs = p.outputs
  status : (position log).status = .trying

/-- The stage that the next one reads from is done. -/
theorem stagePrompt_defined {models : List (String × List String)}
    (ha : RecipeAccepted models recipe) {done : List PipelineStage} {stage : PipelineStage}
    (hat : done ++ [stage] <+: recipe.stages) {p : Progress} {log : List Event}
    (hb : Between runner call recipe approval done p log) (original : String) :
    ∃ prompt, stagePrompt original stage p.outputs = .ok prompt := by
  cases hsource : stage.inputFrom with
  | none => exact ⟨_, by simp [stagePrompt, hsource]; rfl⟩
  | some source =>
      obtain ⟨post, hpost⟩ := hat
      have hearlier := ha.stages.earlier done stage post (by simp [← hpost]) source hsource
      obtain ⟨s, hs, rfl⟩ := List.mem_map.mp hearlier
      obtain ⟨text, htext⟩ := output_position log s (hb.done ▸ hs)
      rw [hb.outputs] at htext
      exact ⟨_, by simp [stagePrompt, hsource, htext]; rfl⟩

/-- How a part of the stage loop ends that has to complete the stages `done`. -/
def Ran (runner : TieredPipelineRunner) (call : Call) (recipe : PipelineRecipe)
    (approval : PipelineApproval) (done : List PipelineStage) :
    Except RunError Progress × List Event → Prop
  | (.ok p, log) => Between runner call recipe approval done p log
  | (.error e, log) => Follows runner.sources call recipe approval log ∧ e ≠ .keyError

theorem runStage_ran (hr : runner.recipe call.recipeName = .ok recipe)
    {done : List PipelineStage} {stage : PipelineStage} (hat : done ++ [stage] <+: recipe.stages)
    {p : Progress} {log : List Event} (hb : Between runner call recipe approval done p log) :
    Ran runner call recipe approval (done ++ [stage])
      (runner.runStage call approval recipe stage p log) := by
  have hat' : (position log).AtHand recipe stage := by rwa [Position.AtHand, hb.done]
  obtain ⟨prompt, hprompt⟩ := stagePrompt_defined (recipe_accepted hr) hat hb call.prompt
  have hf := hb.follows.snoc (e := .prompt stage p.outputs)
    ⟨hb.permitted, hb.status, hat', hb.outputs.symm⟩
  rw [runStage, hprompt]
  simp only
  split
  · exact ⟨hf, by simp⟩
  · obtain ⟨hw, hleft⟩ := tryCandidates_within hr prompt false hf
      (by simpa [Position.advance] using hb.permitted) (by simpa [Position.advance] using hb.status)
      (by simpa [Position.AtHand, Position.advance] using hat') (List.Subset.refl stage.models)
    split
    · rename_i e log' he
      rw [he] at hw hleft
      exact ⟨hw.follows, by rcases hleft with rfl | rfl <;> simp⟩
    · rename_i log' he
      rw [he] at hw
      exact ⟨hw.follows, by simp⟩
    · rename_i log' he
      rw [he] at hw
      exact ⟨hw.follows, by simp⟩
    · rename_i model result log' he
      rw [he] at hw hleft
      obtain ⟨d, hstatus, hd⟩ := hleft
      split
      · exact ⟨hw.follows, by simp⟩
      · rename_i hblank
        have hdone : (position log').done = done := by
          rw [hw.done, position_append]
          exact hb.done
        have hf' := hw.follows.snoc (e := .complete stage result.text)
          ⟨by rwa [Position.AtHand, hdone], by simpa using hblank, d, hstatus, hd⟩
        split
        · exact ⟨hf', by simp⟩
        · rename_i log'' htrace
          obtain ⟨hw', hstatus'⟩ := emitTrace_within htrace hf' (by simp [Position.advance])
          refine ⟨hw'.follows, ?_, ?_, ?_, ?_⟩
          · rw [hw'.permitted]
            simpa [Position.advance, hw.permitted] using hb.permitted
          · rw [hw'.done]
            simp [Position.advance, hdone]
          · rw [hw'.outputs]
            simp [Position.advance, hw.outputs, hb.outputs, Progress.record]
          · rw [hstatus']
            simp [Position.advance]

theorem runStages_ran (hr : runner.recipe call.recipeName = .ok recipe)
    {done stages : List PipelineStage} (hstages : done ++ stages = recipe.stages) {p : Progress}
    {log : List Event} (hb : Between runner call recipe approval done p log) :
    Ran runner call recipe approval recipe.stages
      (runner.runStages call approval recipe stages p log) := by
  induction stages generalizing done p log with
  | nil =>
      rw [List.append_nil] at hstages
      subst hstages
      exact hb
  | cons stage stages ih =>
      have hassoc : done ++ [stage] ++ stages = recipe.stages := by simpa using hstages
      have hran := runStage_ran hr ⟨stages, hassoc⟩ hb
      rw [runStages]
      split
      · rename_i e log' he
        rw [he] at hran
        exact hran
      · rename_i p' log' he
        rw [he] at hran
        exact ih hassoc hran

/-! ## The run -/

/-- What `run` comes to: it raises before anything happens, or its events follow the order. -/
inductive Outcome (runner : TieredPipelineRunner) (call : Call) :
    Except RunError Budget.PipelineResult × List Event → Prop
  | early {e : RunError} : e ≠ .keyError → Outcome runner call (.error e, [])
  | late {recipe : PipelineRecipe} {approval : PipelineApproval}
      {r : Except RunError Budget.PipelineResult} {log : List Event} :
      runner.recipe call.recipeName = .ok recipe → validateApproval call recipe = .ok approval →
      Follows runner.sources call recipe approval log → r ≠ .error .keyError →
      Outcome runner call (r, log)

omit [PyRuntime] in
theorem tieredPipelineEnabled_ne {flag : Option String} {config : YamlFile} :
    tieredPipelineEnabled flag config ≠ .error .keyError := by
  unfold tieredPipelineEnabled
  split
  · simp
  · split <;> simp

omit [PyRuntime] in
theorem validateApproval_ne : validateApproval call recipe ≠ .error .keyError := by
  unfold validateApproval
  split
  · simp
  · cases hrevoked : loadRevokedTraceIds call.revoked with
    | error e =>
        unfold loadRevokedTraceIds at hrevoked
        split at hrevoked <;> cases hrevoked <;> simp [bind, Except.bind]
    | ok revoked =>
        simp only [bind, Except.bind]
        repeat refine Except.check_ne_error (by simp) ?_
        simp

theorem run_outcome (runner : TieredPipelineRunner) (call : Call) :
    Outcome runner call (runner.run call) := by
  unfold run
  split
  · rename_i e he
    exact .early fun h => tieredPipelineEnabled_ne (h ▸ he)
  · exact .early (by simp)
  · split
    · exact .early (by simp)
    · split
      · rename_i e he
        refine .early ?_
        unfold TieredPipelineRunner.recipe at he
        split at he <;> cases he
        simp
      · rename_i recipe hr
        split
        · rename_i e he
          exact .early fun h => validateApproval_ne (h ▸ he)
        · rename_i approval happroval
          have happroved : Follows runner.sources call recipe approval [.approved] :=
            Follows.nil.snoc (e := .approved) ⟨rfl, happroval⟩
          simp only
          split
          · exact .late hr happroval happroved (by simp)
          · rename_i hgate
            have hpermitted := happroved.snoc (e := .permitted)
              ⟨rfl, by rw [hgate]⟩
            have hran := runStages_ran (p := {}) hr (List.nil_append recipe.stages) ⟨hpermitted,
              by simp [position, Position.advance], by simp [position, Position.advance],
              by simp [position, Position.advance], by simp [position, Position.advance]⟩
            split
            · rename_i e log he
              rw [he] at hran
              exact .late hr happroval hran.1 (by simpa using hran.2)
            · rename_i p log he
              rw [he] at hran
              refine .late hr happroval hran.follows ?_
              obtain ⟨stage, hlast⟩ := Option.ne_none_iff_exists'.mp
                (mt List.getLast?_eq_none_iff.mp (recipe_accepted hr).nonempty)
              obtain ⟨text, htext⟩ :=
                output_position log stage (hran.done ▸ List.mem_of_getLast? hlast)
              rw [hran.outputs] at htext
              simp [result, hlast, htext]

end Perpetua.Pipeline

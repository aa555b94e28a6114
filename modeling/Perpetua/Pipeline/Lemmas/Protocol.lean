import Perpetua.Lib.Machine
import Perpetua.Pipeline.Lemmas.Loader
import Perpetua.Pipeline.Runner

/-!
# The order of the events of a run

An account of `run` that has no loops: where a call stands after its events so far, and which event
may come next. The events of every run follow it.
-/

namespace Perpetua.Pipeline

open Budget (DispatchResult)

/-! ## Where a call stands -/

/-- The stage at hand. -/
inductive Status
  /-- The next candidate may be called. -/
  | trying
  | called (d : Dispatch)
  | served (d : Dispatch) (text : String)
  /-- No further candidate may be called. -/
  | over
  deriving DecidableEq

structure Position where
  approved : Bool := false
  permitted : Bool := false
  done : List PipelineStage := []
  outputs : List (String × String) := []
  status : Status := .trying

def Status.answered (d : Dispatch) : Answer → Status
  | .returned r => .served d r.text
  | .unavailable true => .trying
  | .unavailable false | .failed | .cancelled => .over

theorem Status.answered_ne_called (d : Dispatch) (a : Answer) (d' : Dispatch) :
    Status.answered d a ≠ .called d' := by
  cases a with
  | unavailable safe => cases safe <;> simp [Status.answered]
  | _ => simp [Status.answered]

def Position.advance (p : Position) : Event → Position
  | .approved => { p with approved := true }
  | .permitted => { p with permitted := true }
  | .prompt .. | .trace .. => p
  | .dispatch d => { p with status := .called d }
  | .answer d a => { p with status := .answered d a }
  | .complete stage output =>
      { p with done := p.done ++ [stage], outputs := Entries.set p.outputs stage.name output
               status := .trying }

/-- Where the call stands after `log`. -/
def position (log : List Event) : Position := log.foldl Position.advance {}

@[simp] theorem position_append (log es : List Event) :
    position (log ++ es) = es.foldl Position.advance (position log) :=
  List.foldl_append

/-- The stages with an output, in order. -/
def completed (log : List Event) : List PipelineStage :=
  log.filterMap fun | .complete stage _ => some stage | _ => none

/-- How many candidates have returned a result for the stage `name`. -/
def returnsFor (log : List Event) (name : String) : ℕ :=
  log.countP fun | .answer d (.returned _) => d.stage = name | _ => false

theorem done_position (log : List Event) : (position log).done = completed log := by
  induction log using List.reverseRecOn with
  | nil => rfl
  | append_singleton log e ih => cases e <;> simp_all [completed, Position.advance]

theorem permitted_position (log : List Event) : (position log).permitted ↔ .permitted ∈ log := by
  induction log using List.reverseRecOn with
  | nil => simp [position]
  | append_singleton log e ih => cases e <;> simp_all [Position.advance]

/-- A completed stage has an output. -/
theorem output_position (log : List Event) :
    ∀ s ∈ (position log).done, ∃ text, Entries.get? (position log).outputs s.name = some text := by
  induction log using List.reverseRecOn with
  | nil => simp [position]
  | append_singleton log e ih =>
      cases e with
      | complete stage output =>
          intro s hs
          simp only [position_append, List.foldl_cons, List.foldl_nil, Position.advance,
            List.mem_append, List.mem_singleton] at hs ⊢
          rw [Entries.get?_set]
          split
          · exact ⟨output, rfl⟩
          · rename_i hne
            rcases hs with hs | rfl
            · exact ih s hs
            · exact absurd rfl hne
      | _ => simpa [Position.advance] using ih

/-! ## What may come next -/

variable [PyRuntime]

/-- The backend of `model` is in the scope of the approval. -/
def InScope (s : Sources) (approval : PipelineApproval) (model : String) : Prop :=
  ∃ backend, RegistryBackend s model backend ∧
    ∃ item ∈ approval.scope,
      PyRuntime.lower (PyText.strip item) = PyRuntime.lower (PyText.strip backend)

/-- The stage comes after the ones that are done. -/
def Position.AtHand (p : Position) (recipe : PipelineRecipe) (stage : PipelineStage) : Prop :=
  p.done ++ [stage] <+: recipe.stages

/-- The event may follow `log` in a call under `recipe` and `approval`. -/
def Admissible (s : Sources) (call : Call) (recipe : PipelineRecipe) (approval : PipelineApproval)
    (log : List Event) : Event → Prop
  | .approved => log = [] ∧ validateApproval call recipe = .ok approval
  | .permitted =>
      log = [.approved] ∧ (Gate.gatePermits call.gate (some pipelineTier)).1 = true
  | .prompt stage outputs =>
      (position log).permitted ∧ (position log).status = .trying ∧
        (position log).AtHand recipe stage ∧ outputs = (position log).outputs
  | .dispatch d =>
      (position log).permitted ∧ (position log).status = .trying ∧
        ∃ stage, (position log).AtHand recipe stage ∧ d.stage = stage.name ∧
          d.model ∈ stage.models ∧ InScope s approval d.model
  | .answer d a => (position log).status = .called d ∧ a = call.dispatch log
  | .complete stage output =>
      (position log).AtHand recipe stage ∧ PyText.blank output = false ∧
        ∃ d, (position log).status = .served d output ∧ d.stage = stage.name
  | .trace .. => ∀ d, (position log).status ≠ .called d

section

variable (s : Sources) (call : Call) (recipe : PipelineRecipe) (approval : PipelineApproval)

/-- Every event of `log` may follow the ones before it. -/
def Follows (log : List Event) : Prop :=
  Machine.Along (fun log e => log ++ [e]) (Admissible s call recipe approval) [] log

end

variable {s : Sources} {call : Call} {recipe : PipelineRecipe} {approval : PipelineApproval}

omit [PyRuntime] in
theorem run_snoc (pre log : List Event) :
    Machine.run (fun log e => log ++ [e]) pre log = pre ++ log := by
  induction log generalizing pre with
  | nil => simp
  | cons e log ih => simp [ih]

theorem Follows.nil : Follows s call recipe approval [] := trivial

theorem Follows.snoc {log : List Event} (h : Follows s call recipe approval log) {e : Event}
    (he : Admissible s call recipe approval log e) :
    Follows s call recipe approval (log ++ [e]) := by
  apply Machine.along_append.mpr
  rw [run_snoc, List.nil_append]
  exact ⟨h, he, trivial⟩

theorem Follows.at {log : List Event} (h : Follows s call recipe approval log)
    {pre post : List Event} {e : Event} (he : log = pre ++ e :: post) :
    Follows s call recipe approval pre ∧ Admissible s call recipe approval pre e := by
  subst he
  obtain ⟨hpre, hnext⟩ := Machine.along_append.mp h
  rw [run_snoc, List.nil_append] at hnext
  exact ⟨hpre, hnext.1⟩

/-- The induction rule: what every admissible event keeps holds of every log that follows. -/
theorem Follows.induction {I : List Event → Prop} (hnil : I [])
    (hsnoc : ∀ log e, Follows s call recipe approval log → I log →
      Admissible s call recipe approval log e → I (log ++ [e])) {log : List Event}
    (h : Follows s call recipe approval log) : I log := by
  induction log using List.reverseRecOn with
  | nil => exact hnil
  | append_singleton log e ih =>
      obtain ⟨hlog, he⟩ := h.at rfl
      exact hsnoc log e hlog (ih hlog) he

end Perpetua.Pipeline

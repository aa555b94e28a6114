import Mathlib.Algebra.Order.Field.Rat
import Perpetua.Coordination.Phases
import Perpetua.Lib.Ranking

/-!
# The critical path of a workflow

The model of `workflow_critical_path` in `orchestrator/coordination/phases.py`, in exact arithmetic:
times and estimates are the rationals that their numbers stand for. The phases are what
`all_phase_states` returns.
-/

namespace Perpetua.Coordination

open FirstBest

abbrev Phases := OrderedDict String PhaseState

/-! ## Durations -/

/-- A finite number; the others are outside exact arithmetic. -/
def exactValue (n : Json.Number) : ℚ := n.val?.getD 0

/-- `phase.completed_at and phase.started_at`: two times, neither of them zero. -/
def PhaseState.ran (phase : PhaseState) : Option (ℚ × ℚ) :=
  match phase.completedAt, phase.startedAt with
  | some c, some s => if c.val? ≠ some 0 ∧ s.val? ≠ some 0 then some (exactValue c, exactValue s) else none
  | _, _ => none

/-- `current_duration`. -/
def PhaseState.currentDuration (phase : PhaseState) : ℚ :=
  let estimated := exactValue phase.estimatedDurationHours
  let currentDuration := if estimated = 0 then 0 else estimated
  match phase.ran with
  | some (completedAt, startedAt) => (completedAt - startedAt) / 3600
  | none => currentDuration

/-- `elapsed`, as it is printed beside a phase. -/
def PhaseState.elapsed (phase : PhaseState) : ℚ :=
  match phase.ran with
  | some (completedAt, startedAt) => (completedAt - startedAt) / 3600
  | none => exactValue phase.estimatedDurationHours

/-! ## The search -/

/-- The tracked phases that a search has not come through yet. -/
def unvisited (phases : Phases) (visited : List String) : List String :=
  phases.keys.filter fun name => name ∉ visited

theorem unvisited_lt {phases : Phases} {node : String} {visited : List String} {phase : PhaseState}
    (hnode : node ∉ visited) (hphase : phases.get? node = some phase) :
    (unvisited phases (node :: visited)).length < (unvisited phases visited).length := by
  have hsub : (unvisited phases (node :: visited)).Sublist (unvisited phases visited) :=
    List.monotone_filter_right _ fun name hname => by simp_all
  refine Nat.lt_of_le_of_ne hsub.length_le fun hlength => ?_
  have hmem : node ∈ unvisited phases visited := by
    simp only [unvisited, List.mem_filter, OrderedDict.mem_keys, hnode, not_false_eq_true,
      decide_true, and_true]
    exact ⟨phase, hphase⟩
  rw [← hsub.eq_of_length hlength, unvisited, List.mem_filter] at hmem
  simp at hmem

/-- `longest_chain`: the path and its hours. The graph has the phases in their order, and a phase is a
dependent of `node` if it lists it. -/
def longestChain (phases : Phases) (node : String) (visited : List String) : List String × ℚ :=
  if _ : node ∈ visited then ([], 0)
  else
    match _ : phases.get? node with
    | none => ([], 0)
    | some phase =>
        let found := fun dependent : String × PhaseState =>
          let sub := longestChain phases dependent.1 (node :: visited)
          (node :: sub.1, sub.2 + phase.currentDuration)
        let max := firstBest found (phases.entries.filter fun e => node ∈ e.2.dependsOn) ([], 0)
        if max.1 = [] then ([node], phase.currentDuration) else max
termination_by (unvisited phases visited).length
decreasing_by exact unvisited_lt ‹_› ‹_›

/-! ## The report -/

/-- What is printed. -/
inductive Report
  | noPhases
  | noRoots
  /-- The chain, the total, and the hours beside the phases of the chain. -/
  | analysis (longest : List String) (total : ℚ) (shown : List ℚ)
  deriving DecidableEq

/-- `workflow_critical_path`. The roots come in the order in which a set of the names is iterated. -/
def workflowCriticalPath (phases : Phases) (allPhasesSet : List String) : Report :=
  if phases.entries = [] then .noPhases
  else
    let roots := allPhasesSet.filter fun p => (phases.get? p).any (·.dependsOn = [])
    if roots = [] then .noRoots
    else
      let longest := firstBest (fun root => longestChain phases root []) roots ([], 0)
      .analysis longest.1 longest.2
        (longest.1.map fun name => ((phases.get? name).map PhaseState.elapsed).getD 0)

end Perpetua.Coordination

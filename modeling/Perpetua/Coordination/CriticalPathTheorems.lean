import Mathlib.Algebra.Order.BigOperators.Group.List
import Mathlib.Logic.Relation
import Mathlib.Tactic.Linarith
import Perpetua.Coordination.CriticalPath

/-!
# What the critical path is

The search from one phase finds a longest chain that starts there, but it only starts at phases
without any dependencies and prints nothing when every duration is zero.
-/

namespace Perpetua.Coordination

open FirstBest Relation

variable {phases : Phases}

/-! ## Chains -/

/-- The second phase lists the first one. -/
def Lists (phases : Phases) (a b : String) : Prop :=
  ∃ phase, phases.get? b = some phase ∧ a ∈ phase.dependsOn

/-- A tracked phase and one that depends on it. -/
def Dependent (phases : Phases) (a b : String) : Prop := a ∈ phases.keys ∧ Lists phases a b

def Acyclic (phases : Phases) : Prop := ∀ a, ¬TransGen (Dependent phases) a a

/-- A chain of tracked phases, each listed by the next one. -/
structure IsPath (phases : Phases) (chain : List String) : Prop where
  ne_nil : chain ≠ []
  tracked : ∀ name ∈ chain, name ∈ phases.keys
  linked : chain.IsChain (Lists phases)

def hoursOf (phases : Phases) (name : String) : ℚ :=
  ((phases.get? name).map PhaseState.currentDuration).getD 0

def totalHours (phases : Phases) (chain : List String) : ℚ := (chain.map (hoursOf phases)).sum

def NonNegative (phases : Phases) : Prop := ∀ e ∈ phases.entries, 0 ≤ e.2.currentDuration

theorem elapsed_eq (phase : PhaseState) : phase.elapsed = phase.currentDuration := by
  rw [PhaseState.elapsed, PhaseState.currentDuration]
  cases phase.ran with
  | none =>
      dsimp only
      split
      · rename_i hzero
        exact hzero
      · rfl
  | some times => rfl

theorem hoursOf_nonneg (h : NonNegative phases) (name : String) : 0 ≤ hoursOf phases name := by
  rw [hoursOf]
  cases hphase : phases.get? name with
  | none => exact le_refl 0
  | some phase => exact h (name, phase) (Entries.mem_of_get? hphase)

theorem totalHours_nonneg (h : NonNegative phases) (chain : List String) :
    0 ≤ totalHours phases chain := by
  apply List.sum_nonneg
  intro hours hmem
  obtain ⟨name, -, rfl⟩ := List.mem_map.mp hmem
  exact hoursOf_nonneg h name

theorem totalHours_cons (name : String) (chain : List String) :
    totalHours phases (name :: chain) = hoursOf phases name + totalHours phases chain := by
  rw [totalHours, List.map_cons, List.sum_cons, totalHours]

theorem isPath_singleton {name : String} (h : name ∈ phases.keys) : IsPath phases [name] where
  ne_nil := List.cons_ne_nil name []
  tracked := List.forall_mem_singleton.mpr h
  linked := .singleton name

theorem isPath_cons {name next : String} {chain : List String} (h : name ∈ phases.keys)
    (hnext : chain.head? = some next) (hlists : Lists phases name next) (hchain : IsPath phases chain) :
    IsPath phases (name :: chain) := by
  cases chain with
  | nil => cases hnext
  | cons d chain =>
      obtain rfl : d = next := Option.some.inj hnext
      exact
        { ne_nil := List.cons_ne_nil name _
          tracked := List.forall_mem_cons.mpr ⟨h, hchain.tracked⟩
          linked := List.isChain_cons_cons.mpr ⟨hlists, hchain.linked⟩ }

/-- A chain is its first phase alone, or goes on with a chain from a dependent. -/
theorem IsPath.cases {name : String} {chain : List String} (h : IsPath phases chain)
    (hhead : chain.head? = some name) : chain = [name] ∨
      ∃ next rest, chain = name :: rest ∧ rest.head? = some next ∧ Lists phases name next ∧
        IsPath phases rest := by
  cases chain with
  | nil => cases hhead
  | cons d rest =>
      obtain rfl : d = name := Option.some.inj hhead
      cases rest with
      | nil => exact Or.inl rfl
      | cons next rest =>
          obtain ⟨hlists, hlinked⟩ := List.isChain_cons_cons.mp h.linked
          exact Or.inr ⟨next, next :: rest, rfl, rfl, hlists,
            { ne_nil := List.cons_ne_nil next rest
              tracked := fun n hn => h.tracked n (List.mem_cons_of_mem d hn)
              linked := hlinked }⟩

/-! ## The search from one phase -/

/-- What was found is a longest chain that starts at the phase, with its hours. -/
structure Longest (phases : Phases) (node : String) (found : List String × ℚ) : Prop where
  path : IsPath phases found.1
  head : found.1.head? = some node
  total : totalHours phases found.1 = found.2
  most : ∀ chain, IsPath phases chain → chain.head? = some node → totalHours phases chain ≤ found.2

/-- One candidate of `longest_chain`. -/
def through (phases : Phases) (node : String) (visited : List String) (hours : ℚ)
    (dependent : String × PhaseState) : List String × ℚ :=
  let sub := longestChain phases dependent.1 (node :: visited)
  (node :: sub.1, sub.2 + hours)

theorem longestChain_eq {node : String} {visited : List String} {phase : PhaseState}
    (hnode : node ∉ visited) (hphase : phases.get? node = some phase) :
    longestChain phases node visited =
      let max := firstBest (through phases node visited phase.currentDuration)
        (phases.entries.filter fun e => node ∈ e.2.dependsOn) ([], 0)
      if max.1 = [] then ([node], phase.currentDuration) else max := by
  rw [longestChain, dif_neg hnode]
  split
  · rename_i hnone
    rw [hnone] at hphase
    cases hphase
  · rename_i phase' hphase'
    obtain rfl := Option.some.inj (hphase'.symm.trans hphase)
    rfl

/-- The search through a dependent that has been searched from. -/
theorem through_longest {node : String} {visited : List String} {phase : PhaseState}
    {e : String × PhaseState} (hphase : phases.get? node = some phase) (he : e ∈ phases.entries)
    (hlists : node ∈ e.2.dependsOn)
    (hsub : Longest phases e.1 (longestChain phases e.1 (node :: visited))) :
    IsPath phases (through phases node visited phase.currentDuration e).1 ∧
      totalHours phases (through phases node visited phase.currentDuration e).1 =
        (through phases node visited phase.currentDuration e).2 := by
  have hget : phases.get? e.1 = some e.2 := Entries.get?_of_mem phases.nodup he
  have hhours : hoursOf phases node = phase.currentDuration := by rw [hoursOf, hphase]; rfl
  constructor
  · exact isPath_cons (OrderedDict.mem_keys.mpr ⟨phase, hphase⟩) hsub.head ⟨e.2, hget, hlists⟩ hsub.path
  · rw [through, totalHours_cons, hsub.total, hhours, add_comm]

theorem longestChain_longest (hacyclic : Acyclic phases) (hnonneg : NonNegative phases) (node : String)
    (visited : List String) (hnode : node ∈ phases.keys)
    (hfresh : ∀ v ∈ visited, ¬ReflTransGen (Dependent phases) node v) :
    Longest phases node (longestChain phases node visited) := by
  induction hn : (unvisited phases visited).length using Nat.strong_induction_on
    generalizing node visited with
  | _ n ih =>
      obtain ⟨phase, hphase⟩ := OrderedDict.mem_keys.mp hnode
      have hunvisited : node ∉ visited := fun hmem => hfresh node hmem .refl
      have hhours : hoursOf phases node = phase.currentDuration := by rw [hoursOf, hphase]; rfl
      have hphaseNonneg := hhours ▸ hoursOf_nonneg hnonneg node
      -- a search from a dependent does not come back
      have hsub : ∀ e ∈ phases.entries, node ∈ e.2.dependsOn →
          Longest phases e.1 (longestChain phases e.1 (node :: visited)) := by
        intro e he hlists
        have hget : phases.get? e.1 = some e.2 := Entries.get?_of_mem phases.nodup he
        have hdependent : Dependent phases node e.1 := ⟨hnode, e.2, hget, hlists⟩
        apply ih _ (hn ▸ unvisited_lt hunvisited hphase) e.1 (node :: visited)
          (OrderedDict.mem_keys.mpr ⟨e.2, hget⟩) _ rfl
        intro v hv hreach
        rcases List.mem_cons.mp hv with rfl | hv
        · exact hacyclic v (TransGen.head' hdependent hreach)
        · exact hfresh v hv (.head hdependent hreach)
      rw [longestChain_eq hunvisited hphase]
      dsimp only
      generalize hmax : firstBest (through phases node visited phase.currentDuration)
        (phases.entries.filter fun e => node ∈ e.2.dependsOn) ([], 0) = max
      have hcases : max = ([], 0) ∨ ∃ e ∈ phases.entries, node ∈ e.2.dependsOn ∧
          max = through phases node visited phase.currentDuration e := by
        rcases firstBest_cases (through phases node visited phase.currentDuration)
          (phases.entries.filter fun e => node ∈ e.2.dependsOn) ([], 0) with h | ⟨e, he, h, -⟩
        · exact Or.inl (hmax.symm.trans h)
        · obtain ⟨he, hlists⟩ := List.mem_filter.mp he
          exact Or.inr ⟨e, he, of_decide_eq_true hlists, hmax.symm.trans h⟩
      -- every longer chain goes through a candidate
      have hlonger : ∀ chain, IsPath phases chain → chain.head? = some node →
          chain = [node] ∨ totalHours phases chain ≤ max.2 := by
        intro chain hchain hhead
        rcases hchain.cases hhead with hone | ⟨next, rest, rfl, hnext, ⟨phase', hget, hlists⟩, hrest⟩
        · exact Or.inl hone
        · have he : (next, phase') ∈ phases.entries := Entries.mem_of_get? hget
          have hmem : (next, phase') ∈ phases.entries.filter fun e => node ∈ e.2.dependsOn :=
            List.mem_filter.mpr ⟨he, decide_eq_true hlists⟩
          have hrest := (hsub (next, phase') he hlists).most rest hrest hnext
          have hbest : (through phases node visited phase.currentDuration (next, phase')).2 ≤ max.2 :=
            hmax ▸ le_firstBest _ _ hmem
          rw [through] at hbest
          rw [totalHours_cons, hhours]
          right
          linarith
      have hone : totalHours phases [node] = phase.currentDuration := by
        rw [totalHours_cons, hhours, totalHours, List.map_nil, List.sum_nil, add_zero]
      rcases hcases with rfl | ⟨e, he, hlists, rfl⟩
      · rw [if_pos rfl]
        refine ⟨isPath_singleton hnode, rfl, hone, fun chain hchain hhead => ?_⟩
        rcases hlonger chain hchain hhead with rfl | hle
        · exact le_of_eq hone
        · exact le_trans hle hphaseNonneg
      · have hne : (through phases node visited phase.currentDuration e).1 ≠ [] := List.cons_ne_nil _ _
        rw [if_neg hne]
        obtain ⟨hpath, htotal⟩ := through_longest hphase he hlists (hsub e he hlists)
        refine ⟨hpath, rfl, htotal, fun chain hchain hhead => ?_⟩
        rcases hlonger chain hchain hhead with rfl | hle
        · have hsubNonneg := totalHours_nonneg hnonneg (longestChain phases e.1 (node :: visited)).1
          rw [(hsub e he hlists).total] at hsubNonneg
          rw [hone, through]
          linarith
        · exact hle

/-! ## The report -/

/-- The report names a longest chain of tracked phases, and its total is the sum of what is printed
beside them. -/
def Correct (phases : Phases) (report : Report) : Prop :=
  ∃ longest total shown, report = .analysis longest total shown ∧ IsPath phases longest ∧
    (∀ chain, IsPath phases chain → totalHours phases chain ≤ totalHours phases longest) ∧
    total = totalHours phases longest ∧ total = shown.sum

/-- A phase without any dependencies, tracked or not. -/
def IsRoot (phases : Phases) (name : String) : Prop :=
  ∃ phase, phases.get? name = some phase ∧ phase.dependsOn = []

theorem shown_sum {chain : List String} :
    (chain.map fun name => ((phases.get? name).map PhaseState.elapsed).getD 0).sum =
      totalHours phases chain := by
  have helapsed : PhaseState.elapsed = PhaseState.currentDuration := funext elapsed_eq
  rw [helapsed]
  rfl

/-- The search finds a longest chain exactly when one of them starts at a phase without any
dependencies and takes time. -/
theorem workflowCriticalPath_correct_iff (hacyclic : Acyclic phases) (hnonneg : NonNegative phases)
    {allPhasesSet : List String} (hset : allPhasesSet.Perm phases.keys) :
    Correct phases (workflowCriticalPath phases allPhasesSet) ↔
      ∃ chain, IsPath phases chain ∧ (∃ root ∈ chain.head?, IsRoot phases root) ∧
        0 < totalHours phases chain ∧
        ∀ other, IsPath phases other → totalHours phases other ≤ totalHours phases chain := by
  have hfound : ∀ root, IsRoot phases root → Longest phases root (longestChain phases root []) := by
    rintro root ⟨phase, hphase, -⟩
    exact longestChain_longest hacyclic hnonneg root [] (OrderedDict.mem_keys.mpr ⟨phase, hphase⟩)
      (by simp)
  have hroots : ∀ root, root ∈ allPhasesSet.filter (fun p => (phases.get? p).any (·.dependsOn = [])) ↔
      IsRoot phases root := by
    intro root
    rw [List.mem_filter, hset.mem_iff, OrderedDict.mem_keys, IsRoot]
    constructor
    · rintro ⟨⟨phase, hphase⟩, hany⟩
      rw [hphase] at hany
      exact ⟨phase, hphase, of_decide_eq_true hany⟩
    · rintro ⟨phase, hphase, hdeps⟩
      exact ⟨⟨phase, hphase⟩, by rw [hphase]; exact decide_eq_true hdeps⟩
  rw [workflowCriticalPath]
  dsimp only
  generalize allPhasesSet.filter (fun p => (phases.get? p).any (·.dependsOn = [])) = roots at hroots ⊢
  constructor
  · rintro ⟨longest, total, shown, hreport, hpath, hmost, -, -⟩
    split at hreport
    · cases hreport
    · split at hreport
      · cases hreport
      · rcases firstBest_cases (fun root => longestChain phases root []) roots ([], 0) with
          hstart | ⟨root, hroot, hbest, hpos⟩
        · rw [hstart] at hreport
          cases hreport
          exact absurd rfl hpath.ne_nil
        · rw [hbest] at hreport
          cases hreport
          have hlongest := hfound root ((hroots root).mp hroot)
          refine ⟨_, hpath, ⟨root, hlongest.head, (hroots root).mp hroot⟩, ?_, hmost⟩
          rw [hlongest.total]
          exact hpos
  · rintro ⟨chain, hchain, ⟨root, hhead, hroot⟩, hpos, hmost⟩
    have hmem := (hroots root).mpr hroot
    have hentries : phases.entries ≠ [] := by
      obtain ⟨phase, hphase, -⟩ := hroot
      exact List.ne_nil_of_mem (Entries.mem_of_get? hphase)
    rw [if_neg hentries, if_neg (List.ne_nil_of_mem hmem)]
    have hle := (hfound root hroot).most chain hchain hhead
    have hbest := le_firstBest (fun root => longestChain phases root []) ([], 0) hmem
    rcases firstBest_cases (fun root => longestChain phases root []) roots ([], 0) with
      hstart | ⟨other, hother, hother', -⟩
    · rw [hstart] at hbest
      exact absurd (lt_of_lt_of_le hpos (le_trans hle hbest)) (lt_irrefl 0)
    · rw [hother'] at hbest ⊢
      have hlongest := hfound other ((hroots other).mp hother)
      refine ⟨_, _, _, rfl, hlongest.path, fun c hc => ?_, hlongest.total.symm, ?_⟩
      · rw [hlongest.total]
        exact le_trans (hmost c hc) (le_trans hle hbest)
      · rw [shown_sum, hlongest.total]

/-! ## Planned phases -/

def plannedPhase (name : String) (hours : ℤ) (dependsOn : List String) : PhaseState :=
  { phaseName := name, status := .notStarted, dependsOn, estimatedDurationHours := .int hours }

theorem currentDuration_plannedPhase (name : String) (hours : ℤ) (dependsOn : List String) :
    (plannedPhase name hours dependsOn).currentDuration = hours := by
  rw [← elapsed_eq]
  rfl

/-- A build of two hours, and a test of three hours that depends on it. -/
def buildAndTest : Phases where
  entries := [("build", plannedPhase "build" 2 []), ("test", plannedPhase "test" 3 ["build"])]
  nodup := by decide

theorem lists_buildAndTest {a b : String} (h : Lists buildAndTest a b) : a = "build" ∧ b = "test" := by
  obtain ⟨phase, hphase, hmem⟩ := h
  have hentry : (b, phase) ∈ buildAndTest.entries := Entries.mem_of_get? hphase
  simp only [buildAndTest, List.mem_cons, Prod.mk.injEq, List.not_mem_nil, or_false] at hentry
  rcases hentry with ⟨-, rfl⟩ | ⟨rfl, rfl⟩
  · cases hmem
  · exact ⟨List.mem_singleton.mp hmem, rfl⟩

theorem acyclic_buildAndTest : Acyclic buildAndTest := by
  have hends : ∀ {a b}, TransGen (Dependent buildAndTest) a b → a = "build" ∧ b = "test" := by
    intro a b h
    induction h with
    | single h => exact lists_buildAndTest h.2
    | tail _ h ih => exact ⟨ih.1, (lists_buildAndTest h.2).2⟩
  intro a h
  obtain ⟨rfl, hb⟩ := hends h
  exact absurd hb (by decide)

theorem nonNegative_buildAndTest : NonNegative buildAndTest := by
  intro e he
  simp only [buildAndTest, List.mem_cons, List.not_mem_nil, or_false] at he
  rcases he with rfl | rfl
  · rw [currentDuration_plannedPhase]
    norm_num
  · rw [currentDuration_plannedPhase]
    norm_num

theorem isPath_buildAndTest : IsPath buildAndTest ["build", "test"] where
  ne_nil := List.cons_ne_nil _ _
  tracked := fun _ hname => hname
  linked := List.isChain_cons_cons.mpr
    ⟨⟨_, rfl, List.mem_singleton_self _⟩, .singleton _⟩

/-- The two phases alone and one behind the other are all the chains. -/
theorem chains_buildAndTest {chain : List String} (h : IsPath buildAndTest chain) :
    chain = ["build"] ∨ chain = ["test"] ∨ chain = ["build", "test"] := by
  cases chain with
  | nil => exact absurd rfl h.ne_nil
  | cons a rest =>
      cases rest with
      | nil =>
          have hmem : a ∈ ["build", "test"] := h.tracked a List.mem_cons_self
          simpa [or_assoc] using hmem
      | cons b rest =>
          obtain ⟨hlists, hlinked⟩ := List.isChain_cons_cons.mp h.linked
          obtain ⟨rfl, rfl⟩ := lists_buildAndTest hlists
          cases rest with
          | nil => exact .inr (.inr rfl)
          | cons c rest =>
              obtain ⟨hlists, -⟩ := List.isChain_cons_cons.mp hlinked
              exact absurd (lists_buildAndTest hlists).1 (by decide)

theorem hoursOf_buildAndTest :
    hoursOf buildAndTest "build" = 2 ∧ hoursOf buildAndTest "test" = 3 :=
  ⟨currentDuration_plannedPhase "build" 2 [], currentDuration_plannedPhase "test" 3 ["build"]⟩

theorem workflowCriticalPath_correct_buildAndTest :
    Correct buildAndTest (workflowCriticalPath buildAndTest ["test", "build"]) := by
  have hroot : IsRoot buildAndTest "build" := ⟨_, rfl, rfl⟩
  obtain ⟨hbuild, htest⟩ := hoursOf_buildAndTest
  have htotal : totalHours buildAndTest ["build", "test"] = 5 := by
    simp only [totalHours, List.map_cons, List.map_nil, List.sum_cons, List.sum_nil, hbuild, htest]
    norm_num
  refine (workflowCriticalPath_correct_iff acyclic_buildAndTest nonNegative_buildAndTest
    (List.Perm.swap "build" "test" [])).mpr
      ⟨["build", "test"], isPath_buildAndTest, ⟨"build", rfl, hroot⟩, ?_, fun other hother => ?_⟩
  · rw [htotal]
    norm_num
  · rw [htotal]
    rcases chains_buildAndTest hother with rfl | rfl | rfl
    · simp only [totalHours, List.map_singleton, List.sum_singleton, hbuild]
      norm_num
    · simp only [totalHours, List.map_singleton, List.sum_singleton, htest]
      norm_num
    · exact le_of_eq htotal

/-! ## Phases without a duration -/

def idlePhases : Phases where
  entries := [("build", plannedPhase "build" 0 [])]
  nodup := List.nodup_singleton _

theorem acyclic_idlePhases : Acyclic idlePhases := by
  have hnone : ∀ a b, ¬Dependent idlePhases a b := by
    rintro a b ⟨-, phase, hphase, hlists⟩
    have hmem : (b, phase) ∈ idlePhases.entries := Entries.mem_of_get? hphase
    rw [(Prod.mk.inj (List.mem_singleton.mp hmem)).2] at hlists
    cases hlists
  intro a h
  cases h with
  | single h => exact hnone _ _ h
  | tail _ h => exact hnone _ _ h

theorem nonNegative_idlePhases : NonNegative idlePhases := by
  intro e he
  obtain rfl := List.mem_singleton.mp he
  rw [currentDuration_plannedPhase]
  norm_num

/-- A phase that has not run and has no estimate. -/
theorem workflowCriticalPath_not_correct :
    Acyclic idlePhases ∧ NonNegative idlePhases ∧ idlePhases.entries ≠ [] ∧
      workflowCriticalPath idlePhases ["build"] = .analysis [] 0 [] ∧
      ¬Correct idlePhases (workflowCriticalPath idlePhases ["build"]) := by
  have hsearch : longestChain idlePhases "build" [] = (["build"], 0) := by
    have hphase : idlePhases.get? "build" = some (plannedPhase "build" 0 []) := rfl
    rw [longestChain_eq List.not_mem_nil hphase, currentDuration_plannedPhase]
    rfl
  have hreport : workflowCriticalPath idlePhases ["build"] = .analysis [] 0 [] := by
    have hbest : firstBest (fun root => longestChain idlePhases root []) ["build"] ([], 0) =
        ([], 0) := by
      simp [firstBest, better, hsearch]
    have hroots : ["build"].filter (fun p => (idlePhases.get? p).any (·.dependsOn = [])) =
        ["build"] := rfl
    have hentries : idlePhases.entries ≠ [] := List.cons_ne_nil _ _
    rw [workflowCriticalPath, if_neg hentries]
    dsimp only
    rw [hroots, if_neg (List.cons_ne_nil _ _), hbest]
    rfl
  refine ⟨acyclic_idlePhases, nonNegative_idlePhases, List.cons_ne_nil _ _, hreport, ?_⟩
  rintro ⟨longest, total, shown, heq, hpath, -⟩
  rw [hreport] at heq
  cases heq
  exact hpath.ne_nil rfl

end Perpetua.Coordination

import Perpetua.Lib.Except
import Perpetua.Pipeline.Config

/-!
# What the loader accepts

One lemma for each part of `_load_and_validate` says what a part that did not raise has checked.
They are assembled into `Accepted`.
-/

namespace Perpetua.Pipeline

open Except (bind_eq_ok check_eq_ok)

theorem uncaught_eq_ok {α : Type} {r : Except PyError α} {a : α} :
    uncaught r = .ok a ↔ r = .ok a := by
  cases r <;> simp [uncaught, Except.mapError]

/-! ## Models -/

/-- The backend that the registry gives to `model`. -/
def RegistryBackend (s : Sources) (model backend : String) : Prop :=
  ∃ rows, loadBackendByName s.registry = .ok rows ∧ Entries.get? rows model = some (.str backend)

theorem checkModel_ok {tiers backends : List (String × Yaml)} {acc r : List (String × String)}
    {model : String} (h : checkModel tiers backends acc model = .ok r) :
    ∃ backend, Entries.get? backends model = some (.str backend) ∧ PyText.strip backend ≠ "" ∧
      r = Entries.set acc model (PyText.strip backend) := by
  simp only [checkModel, raiseConfig, check_eq_ok] at h
  obtain ⟨-, h⟩ := h
  split at h
  · rename_i backend hbackend
    rw [check_eq_ok] at h
    obtain ⟨hblank, h⟩ := h
    cases h
    exact ⟨backend, hbackend, by simpa [PyText.blank] using hblank, rfl⟩
  · cases h

/-- The backends behind the loop over `done`. -/
def BackendsOf (backends : List (String × Yaml)) (done : List String)
    (acc : List (String × String)) : Prop :=
  ∀ model, (model ∈ done → Entries.get? acc model ≠ none) ∧
    ∀ b, Entries.get? acc model = some b → b ≠ "" ∧
      ∃ backend, Entries.get? backends model = some (.str backend) ∧ b = PyText.strip backend

theorem checkModels_ok {tiers backends : List (String × Yaml)} {models : List String}
    {r : List (String × String)} (h : models.foldlM (checkModel tiers backends) [] = .ok r) :
    BackendsOf backends models r := by
  apply Except.foldlM_induction (l := []) (I := BackendsOf backends) ?_ ?_ h
  · intro done model acc r hinv h model'
    obtain ⟨backend, hbackend, hne, rfl⟩ := checkModel_ok h
    rw [Entries.get?_set]
    split
    · rename_i heq
      subst heq
      refine ⟨fun _ => by simp, fun b hb => ?_⟩
      cases hb
      exact ⟨hne, backend, hbackend, rfl⟩
    · rename_i hne'
      refine ⟨fun hm => (hinv model').1 ?_, (hinv model').2⟩
      rcases List.mem_append.mp hm with hm | hm
      · exact hm
      · exact absurd (List.mem_singleton.mp hm).symm hne'
  · intro model
    refine ⟨fun h => absurd h List.not_mem_nil, fun b hb => ?_⟩
    cases hb

/-! ## Stages -/

/-- The rows of a recipe that have passed their checks. -/
structure StagesAccepted (models : List (String × List String)) (stages : List PipelineStage) :
    Prop where
  distinct : (stages.map (·.name)).Nodup
  positive : ∀ s ∈ stages, 0 < s.maxTokens
  aliased : ∀ s ∈ stages, ∃ a, Entries.get? models a = some s.models
  earlier : ∀ pre s post, stages = pre ++ s :: post →
    ∀ source ∈ s.inputFrom, source ∈ pre.map (·.name)

theorem StagesAccepted.snoc {models : List (String × List String)} {stages : List PipelineStage}
    (h : StagesAccepted models stages) {s : PipelineStage} (hname : s.name ∉ stages.map (·.name))
    (hpos : 0 < s.maxTokens) (halias : ∃ a, Entries.get? models a = some s.models)
    (hinput : ∀ source ∈ s.inputFrom, source ∈ stages.map (·.name)) :
    StagesAccepted models (stages ++ [s]) where
  distinct := by
    rw [List.map_append, List.map_singleton, ← List.concat_eq_append]
    exact h.distinct.concat hname
  positive := by
    intro t ht
    rcases List.mem_append.mp ht with ht | ht
    · exact h.positive t ht
    · rwa [List.mem_singleton.mp ht]
  aliased := by
    intro t ht
    rcases List.mem_append.mp ht with ht | ht
    · exact h.aliased t ht
    · rwa [List.mem_singleton.mp ht]
  earlier := by
    intro pre t post he
    rcases List.eq_nil_or_concat post with rfl | ⟨post, u, rfl⟩
    · obtain ⟨rfl, ht⟩ := List.append_inj' he rfl
      cases ht
      exact hinput
    · have he : stages ++ [s] = (pre ++ t :: post) ++ [u] := by simpa using he
      exact h.earlier pre t post (List.append_inj' he rfl).1

variable [PyRuntime]

theorem loadInputFrom_ok {seen : List String} {v : Option Yaml} {r : Option String}
    (h : loadInputFrom seen v = .ok r) : ∀ source ∈ r, source ∈ seen := by
  unfold loadInputFrom raiseConfig at h
  split at h
  · cases h
    simp
  · cases h
    simp
  · simp only at h
    split at h
    · rename_i hseen
      cases h
      simpa using hseen
    · cases h

theorem loadStage_ok {models : List (String × List String)} {stages r : List PipelineStage}
    {row : Yaml} (h : loadStage models stages row = .ok r) :
    ∃ s, r = stages ++ [s] ∧ s.name ∉ stages.map (·.name) ∧ 0 < s.maxTokens ∧
      (∃ a, Entries.get? models a = some s.models) ∧
      ∀ source ∈ s.inputFrom, source ∈ stages.map (·.name) := by
  cases row with
  | map fields =>
      simp only [loadStage, raiseConfig, bind_eq_ok, check_eq_ok] at h
      obtain ⟨_, -, hname, h⟩ := h
      split at h
      · cases h
      · rename_i candidates hmodels
        simp only [bind_eq_ok, check_eq_ok] at h
        obtain ⟨maxTokens, -, hpos, inputFrom, hinput, h⟩ := h
        cases h
        refine ⟨_, rfl, fun hm => hname (.inr hm), ?_, ⟨_, hmodels⟩, loadInputFrom_ok hinput⟩
        exact Int.pos_iff_toNat_pos.mp (not_le.mp hpos)
  | _ => cases h

theorem loadStages_ok {models : List (String × List String)} {rows : List Yaml}
    {stages : List PipelineStage} (h : rows.foldlM (loadStage models) [] = .ok stages) :
    StagesAccepted models stages ∧ stages.length = rows.length := by
  apply Except.foldlM_induction (l := [])
    (I := fun rows stages => StagesAccepted models stages ∧ stages.length = rows.length) ?_ ?_ h
  · intro done row stages r ⟨hs, hlen⟩ h
    obtain ⟨s, rfl, hname, hpos, halias, hinput⟩ := loadStage_ok h
    exact ⟨hs.snoc hname hpos halias hinput, by simp [hlen]⟩
  · refine ⟨⟨List.nodup_nil, ?_, ?_, ?_⟩, rfl⟩ <;> simp

/-! ## Recipes -/

structure RecipeAccepted (models : List (String × List String)) (recipe : PipelineRecipe) :
    Prop where
  nonempty : recipe.stages ≠ []
  short : recipe.stages.length ≤ maxStages
  stages : StagesAccepted models recipe.stages
  capped : requestedTokens recipe.stages ≤ recipe.maxTotalTokens

theorem loadLimits_ok {name : String} {stages : List PipelineStage}
    {fields : List (Yaml × Yaml)} {recipe : PipelineRecipe}
    (h : loadLimits name stages fields = .ok recipe) :
    recipe.stages = stages ∧ requestedTokens stages ≤ recipe.maxTotalTokens := by
  simp only [loadLimits, raiseConfig, bind_eq_ok, check_eq_ok] at h
  obtain ⟨maxTotal, -, maxInput, -, -, hcap, cost, -, -, h⟩ := h
  cases h
  exact ⟨rfl, by simp only; omega⟩

theorem loadRecipe_ok {models : List (String × List String)}
    {recipes r : List (String × PipelineRecipe)} {entry : Yaml × Yaml}
    (h : loadRecipe models recipes entry = .ok r) :
    ∃ name recipe, r = Entries.set recipes name recipe ∧ RecipeAccepted models recipe := by
  unfold loadRecipe raiseConfig at h
  split at h
  · rw [bind_eq_ok] at h
    obtain ⟨_, -, h⟩ := h
    split at h
    · simp only [check_eq_ok, bind_eq_ok] at h
      obtain ⟨hshort, stages, hstages, recipe, hlimits, h⟩ := h
      obtain ⟨haccepted, hlen⟩ := loadStages_ok hstages
      obtain ⟨rfl, hcap⟩ := loadLimits_ok hlimits
      cases h
      refine ⟨_, recipe, rfl, ?_, by omega, haccepted, hcap⟩
      rw [← List.length_pos_iff, hlen]
      exact Nat.succ_pos _
    · cases h
  · cases h

theorem loadRecipes_ok {models : List (String × List String)} {rows : List (Yaml × Yaml)}
    {recipes : List (String × PipelineRecipe)}
    (h : rows.foldlM (loadRecipe models) [] = .ok recipes) {name : String}
    {recipe : PipelineRecipe} (hr : Entries.get? recipes name = some recipe) :
    RecipeAccepted models recipe := by
  have hinv : ∀ name recipe, Entries.get? recipes name = some recipe →
      RecipeAccepted models recipe := by
    apply Except.foldlM_invariant (I := fun recipes => ∀ name recipe,
      Entries.get? recipes name = some recipe → RecipeAccepted models recipe) ?_ ?_ h
    · intro recipes entry r hinv h name recipe hget
      obtain ⟨name', recipe', rfl, haccepted⟩ := loadRecipe_ok h
      rw [Entries.get?_set] at hget
      split at hget
      · cases hget
        exact haccepted
      · exact hinv name recipe hget
    · intro name recipe hget
      cases hget
  exact hinv name recipe hr

/-! ## The whole configuration -/

/-- What an accepted configuration has passed. -/
structure Accepted (s : Sources) (l : Loaded) : Prop where
  recipes : ∀ name recipe, Entries.get? l.recipes name = some recipe →
    RecipeAccepted l.models recipe
  /-- Every candidate of every alias has a backend. -/
  listed : ∀ a models, Entries.get? l.models a = some models → ∀ m ∈ models,
    Entries.get? l.modelBackends m ≠ none
  backends : ∀ model b, Entries.get? l.modelBackends model = some b → b ≠ "" ∧
    ∃ backend, RegistryBackend s model backend ∧ b = PyText.strip backend

theorem loadAndValidate_ok {s : Sources} {l : Loaded} (h : loadAndValidate s = .ok l) :
    Accepted s l := by
  simp only [loadAndValidate, raiseConfig, bind_eq_ok, check_eq_ok, uncaught_eq_ok] at h
  obtain ⟨-, -, root, -, _, -, _, -, aliases, -, rows, -, models, -, tiers, -, backends, hbackends,
    modelBackends, hmodels, recipes, hrecipes, h⟩ := h
  cases h
  have hof := checkModels_ok hmodels
  constructor
  · intro name recipe hr
    exact loadRecipes_ok hrecipes hr
  · intro a names hget m hm
    apply (hof m).1
    exact List.mem_flatMap.mpr ⟨(a, names), Entries.mem_of_get? hget, hm⟩
  · intro model b hb
    obtain ⟨hne, backend, hget, rfl⟩ := (hof model).2 b hb
    exact ⟨hne, backend, ⟨backends, hbackends, hget⟩, rfl⟩

end Perpetua.Pipeline

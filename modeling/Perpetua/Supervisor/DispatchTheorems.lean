import Perpetua.Supervisor.Dispatch

/-!
# The model that a dispatched job posts

What a worker posts is what the affinity check behind it has seen, or the default was blank where the
metadata was filled and the environment has changed since.
-/

namespace Perpetua.Supervisor.Dispatch

open Json (Value)
open PyText (strip)

/-- `str.lower` leaves lower case letters of ASCII and hyphens as they are. -/
def KeepsPlain (lower : String → String) : Prop :=
  ∀ s : String, (s.toList.all fun c => c.isLower || c == '-') = true → lower s = s

variable {py : PyRuntime} {guards : Guards} {policy : Policy}

/-! ## Names of backends -/

theorem lower_plain (hlower : KeepsPlain py.lower) {s : String}
    (hs : s ∈ ["ollama", "ollama-mac", "lmstudio-mac", "lmstudio-win", "win", "mac"]) :
    py.lower s = s := by
  refine hlower s ?_
  revert s
  decide

theorem normalizeBackend_plain (hlower : KeepsPlain py.lower) {s : String}
    (hs : s ∈ ["ollama", "ollama-mac", "lmstudio-mac", "lmstudio-win", "win", "mac"]) :
    normalizeBackend py s = s := by
  rw [normalizeBackend, lower_plain hlower hs]
  revert s
  decide

theorem backendToPlatform_win (hlower : KeepsPlain py.lower) :
    backendToPlatform py "lmstudio-win" = "win" := by
  rw [backendToPlatform, lower_plain hlower (by simp)]
  decide

theorem backendToPlatform_mac (hlower : KeepsPlain py.lower) {s : String}
    (hs : s ∈ ["ollama", "ollama-mac", "lmstudio-mac"]) : backendToPlatform py s = "mac" := by
  have hs' : s ∈ ["ollama", "ollama-mac", "lmstudio-mac", "lmstudio-win", "win", "mac"] := by
    simp only [List.mem_cons, List.not_mem_nil, or_false] at hs ⊢
    rcases hs with hs | hs | hs <;> simp [hs]
  rw [backendToPlatform, lower_plain hlower hs']
  clear hs'
  revert s
  decide

/-- A text without white space is found in a text if it is found behind its leading white space. -/
theorem infix_dropWhile {α : Type*} {p : α → Bool} {pat l : List α} (hpat : ∀ c ∈ pat, p c = false)
    (h : pat <:+: l) : pat <:+: l.dropWhile p := by
  cases pat with
  | nil => exact List.nil_infix
  | cons c pat =>
      obtain ⟨before, after, rfl⟩ := h
      have hdrop : (before ++ (c :: (pat ++ after))).dropWhile p =
          before.dropWhile p ++ c :: (pat ++ after) := by
        rw [List.dropWhile_append]
        split
        · rename_i hnil
          rw [List.isEmpty_iff] at hnil
          rw [hnil, List.dropWhile_cons_of_neg (by simp [hpat c])]
          rfl
        · rfl
      refine ⟨before.dropWhile p, after, ?_⟩
      rw [List.append_assoc, List.append_assoc] at *
      exact hdrop.symm

theorem infix_strip {pat : List Char} (hpat : ∀ c ∈ pat, PyText.isSpace c = false) {s : String}
    (h : pat <:+: s.toList) : pat <:+: (strip s).toList := by
  rw [strip, String.toList_ofList, ← List.reverse_infix, List.reverse_reverse]
  refine infix_dropWhile (by simpa using hpat) ?_
  rw [List.reverse_infix]
  exact infix_dropWhile hpat h

/-- Of the backends with a model, the Windows one alone is on Windows. -/
theorem normalizeBackend_of_win {backend : String}
    (hreq : backendRequiresDispatchModel py backend = true)
    (hwin : backendToPlatform py backend = "win") : normalizeBackend py backend = "lmstudio-win" := by
  have hfound : "win".toList <:+: (normalizeBackend py backend).toList := by
    rw [backendToPlatform] at hwin
    split at hwin
    · rename_i h
      exact infix_strip (by simp [PyText.isSpace]) h
    · exact absurd hwin (by decide)
  rw [backendRequiresDispatchModel, List.contains_iff_mem] at hreq
  revert hfound hreq
  generalize normalizeBackend py backend = norm
  intro hfound hreq
  revert norm
  decide

/-! ## Models -/

theorem mem_of_roleMapped {backend : String} {role specialization target : Option String} {m : String}
    (h : roleMappedModel py backend role specialization target = some m) :
    ∃ e ∈ roleBackendMap, e.2.2 = m := by
  rw [roleMappedModel] at h
  split at h
  · cases h
  · rename_i mappedBackend mappedModel hmapped
    have hm : mappedModel = m := by
      dsimp only at h
      split at h
      · exact Option.some.inj h
      · split at h
        · exact Option.some.inj h
        · cases h
    obtain ⟨r, -, hr⟩ := Option.bind_eq_some_iff.mp hmapped
    rw [resolveRoleBackend] at hr
    split at hr
    · rename_i pair hfound
      cases hr
      exact ⟨_, Entries.mem_of_get? hfound, hm⟩
    · split at hr
      · exact ⟨_, Entries.mem_of_get? hr, hm⟩
      · cases hr

theorem mem_roleModels : ∀ e ∈ roleBackendMap,
    e.2.2 = windowsQwenPriorityModel ∨ e.2.2 = "qwen3.5:9b-mlx" := by
  simp [roleBackendMap]

/-- The models of the table have no space at an end, and none is empty. -/
theorem roleMapped_trimmed {backend : String} {role specialization target : Option String} {m : String}
    (h : roleMappedModel py backend role specialization target = some m) : strip m = m ∧ m ≠ "" := by
  obtain ⟨e, he, rfl⟩ := mem_of_roleMapped h
  rcases mem_roleModels e he with hmodel | hmodel <;> rw [hmodel]
  · decide +kernel
  · decide +kernel

theorem filter_roleMapped {backend : String} {role specialization target : Option String} :
    (roleMappedModel py backend role specialization target).filter (· ≠ "") =
      roleMappedModel py backend role specialization target := by
  cases h : roleMappedModel py backend role specialization target with
  | none => rfl
  | some m => simp [(roleMapped_trimmed h).2]

theorem resolve_explicit {env : ModelEnv} {backend : String} {metadata : Metadata}
    {role specialization target : Option String} (h : explicitModel py metadata ≠ "") :
    resolveDispatchModel py env backend metadata role specialization target =
      some (explicitModel py metadata) := by
  rw [resolveDispatchModel, if_pos h]

theorem resolve_blank {env : ModelEnv} {backend : String} {metadata : Metadata}
    {role specialization target : Option String} (h : explicitModel py metadata = "") :
    resolveDispatchModel py env backend metadata role specialization target =
      (roleMappedModel py backend role specialization target).or
        (defaultModel py env backend target) := by
  rw [resolveDispatchModel, if_neg (by simp [h]), filter_roleMapped]
  cases roleMappedModel py backend role specialization target <;> rfl

theorem explicitModel_set (metadata : Metadata) (m : String) :
    explicitModel py (Entries.set metadata "model" (.str m)) = strip m := by
  rw [explicitModel, Entries.get?_set, if_pos rfl]
  by_cases hm : m = ""
  · subst hm
    rfl
  · simp [Option.filter, Value.truthy, hm, PyRuntime.str]

theorem explicitModel_erase (metadata : Metadata) :
    explicitModel py (Entries.erase metadata "_win_endpoint") = explicitModel py metadata := by
  rw [explicitModel, explicitModel, Entries.get?_erase, if_neg (by decide)]

theorem explicitModel_setEndpoint (metadata : Metadata) (v : Value) :
    explicitModel py (Entries.set metadata "_win_endpoint" v) = explicitModel py metadata := by
  rw [explicitModel, explicitModel, Entries.get?_set, if_neg (by decide)]

/-- Only the model of the metadata counts. -/
theorem resolve_congr {env : ModelEnv} {backend : String} {metadata metadata' : Metadata}
    {role specialization target : Option String}
    (h : explicitModel py metadata = explicitModel py metadata') :
    resolveDispatchModel py env backend metadata role specialization target =
      resolveDispatchModel py env backend metadata' role specialization target := by
  rw [resolveDispatchModel, resolveDispatchModel, h]

/-- What the filled metadata say: the model that was resolved, or nothing where that is a blank default. -/
theorem ensure_cases {env : ModelEnv} {backend : String} {metadata metadata' : Metadata}
    {role specialization target : Option String}
    (h : ensureMetadataModel py env backend metadata role specialization target = some metadata') :
    explicitModel py metadata' ≠ "" ∨
      explicitModel py metadata' = "" ∧
        roleMappedModel py backend role specialization target = none ∧
        ∃ d, defaultModel py env backend target = some d ∧ strip d = "" := by
  rw [ensureMetadataModel] at h
  split at h
  · rename_i hexplicit
    cases h
    exact .inl hexplicit
  · rename_i hblank
    obtain ⟨m, hm, rfl⟩ := Option.map_eq_some_iff.mp h
    rw [explicitModel_set]
    rw [resolve_blank (by simpa using hblank)] at hm
    cases hrole : roleMappedModel py backend role specialization target with
    | some r =>
        rw [hrole] at hm
        cases hm
        left
        rw [(roleMapped_trimmed hrole).1]
        exact (roleMapped_trimmed hrole).2
    | none =>
        rw [hrole, Option.none_or] at hm
        by_cases hd : strip m = ""
        · exact .inr ⟨hd, rfl, m, hm, hd⟩
        · exact .inl hd

/-! ## The backend of a worker -/

/-- The platform that the check of a backend resolves for. -/
def winTarget (py : PyRuntime) (backend : String) : Option String :=
  if backendToPlatform py backend = "win" then some "win" else none

/-- No role is mapped to the alias of the Mac server. -/
theorem roleMapped_alias (hlower : KeepsPlain py.lower) (role specialization : Option String) :
    roleMappedModel py "ollama-mac" role specialization none =
      roleMappedModel py "ollama" role specialization none := by
  rw [roleMappedModel, roleMappedModel]
  cases hmapped : (role.filter (· ≠ "")).bind (resolveRoleBackend · specialization) with
  | none => rfl
  | some pair =>
      obtain ⟨mappedBackend, mappedModel⟩ := pair
      have hname : mappedBackend ∈ ["ollama", "lmstudio-win"] := by
        obtain ⟨r, -, hr⟩ := Option.bind_eq_some_iff.mp hmapped
        have hmem : ∃ e ∈ roleBackendMap, e.2.1 = mappedBackend := by
          rw [resolveRoleBackend] at hr
          split at hr
          · rename_i hfound
            cases hr
            exact ⟨_, Entries.mem_of_get? hfound, rfl⟩
          · split at hr
            · exact ⟨_, Entries.mem_of_get? hr, rfl⟩
            · cases hr
        obtain ⟨e, he, rfl⟩ := hmem
        clear hmapped hr
        revert e
        decide
      simp only [List.mem_cons, List.not_mem_nil, or_false] at hname
      rcases hname with rfl | rfl
      · simp [normalizeBackend_plain hlower]
      · simp [normalizeBackend_plain hlower]

/-- A worker resolves its model as the check of its backend does. -/
theorem resolve_worker (hlower : KeepsPlain py.lower) {worker backend : String} {target : Option String}
    (hworker : workerBackend worker = some (backend, target)) (env : ModelEnv) (metadata : Metadata)
    (role specialization : Option String) :
    resolveDispatchModel py env backend metadata role specialization target =
      resolveDispatchModel py env worker metadata role specialization (winTarget py worker) := by
  rw [workerBackend.eq_def] at hworker
  split at hworker
  · cases hworker
    rw [winTarget, backendToPlatform_mac hlower (by simp), if_neg (by decide)]
    rw [resolveDispatchModel, resolveDispatchModel, roleMapped_alias hlower, defaultModel,
      defaultModel, normalizeBackend_plain hlower (by simp), normalizeBackend_plain hlower (by simp)]
    simp
  · cases hworker
    rw [winTarget, backendToPlatform_mac hlower (by simp), if_neg (by decide)]
  · cases hworker
    rw [winTarget, backendToPlatform_mac hlower (by simp), if_neg (by decide)]
  · cases hworker
    rw [winTarget, backendToPlatform_win hlower, if_pos rfl]
  · cases hworker

/-! ## The affinity of what is posted -/

theorem workerBackend_isSome {worker : String} (h : (workerBackend worker).isSome) :
    worker ∈ ["ollama", "ollama-mac", "lmstudio-mac", "lmstudio-win"] := by
  rw [workerBackend.eq_def] at h
  split at h <;> simp at h ⊢

theorem requires_of_worker (hlower : KeepsPlain py.lower) {worker : String}
    (h : (workerBackend worker).isSome) : backendRequiresDispatchModel py worker = true := by
  have hmem := workerBackend_isSome h
  rw [backendRequiresDispatchModel, normalizeBackend_plain hlower]
  · clear h
    revert worker
    decide
  · simp only [List.mem_cons, List.not_mem_nil, or_false] at hmem ⊢
    rcases hmem with hw | hw | hw | hw <;> simp [hw]

theorem runWorker_spec (hlower : KeepsPlain py.lower) {env : ModelEnv} {worker : String} {spec : JobSpec}
    {posted : Posted} (h : runWorker py guards env worker spec = some posted) :
    posted.worker = worker ∧ posted.routedToWindows = false ∧
      posted.winEndpoint = (if worker = "lmstudio-win" then
        (Entries.get? spec.metadata "_win_endpoint").filter Value.truthy else none) ∧
      posted.model = if (workerBackend worker).isSome then
        resolveDispatchModel py env worker spec.metadata spec.role spec.specialization
          (winTarget py worker) else none := by
  have hgo : ¬ guards.stops worker spec = true := fun hstops => by
    rw [runWorker, if_pos hstops] at h
    cases h
  rw [runWorker, if_neg hgo] at h
  cases hworker : workerBackend worker with
  | none =>
      rw [hworker] at h
      cases h
      refine ⟨rfl, rfl, ?_, rfl⟩
      rw [if_neg]
      rintro rfl
      cases hworker
  | some pair =>
      obtain ⟨backend, target⟩ := pair
      rw [hworker] at h
      obtain ⟨m, hm, rfl⟩ := Option.map_eq_some_iff.mp h
      refine ⟨rfl, rfl, rfl, ?_⟩
      rw [Option.isSome_some, if_pos rfl, ← resolve_worker hlower hworker, hm]

/-- With no platform of its own, the check takes the one of the backend. -/
theorem prepareSpec_eq {reads : Reads} {spec : JobSpec} {backend : String}
    (hreq : backendRequiresDispatchModel py backend = true) :
    prepareSpecForInference py policy reads spec backend none =
      (ensureMetadataModel py reads.atEnsure backend spec.metadata spec.role spec.specialization
          (winTarget py backend)).bind fun metadata =>
        (resolveDispatchModel py reads.atCheck backend metadata spec.role spec.specialization
            (winTarget py backend)).bind fun modelId =>
          if checkAffinity py policy modelId (backendToPlatform py backend) then
            some { spec with metadata } else none := by
  have htarget : (if backendToPlatform py backend = "win" then some (backendToPlatform py backend)
      else none) = winTarget py backend := by
    rw [winTarget]
    split
    · rename_i hwin
      rw [hwin]
    · rfl
  rw [prepareSpecForInference, hreq]
  simp only [Bool.not_true, Bool.false_eq_true, if_false]
  rw [show orElse none (backendToPlatform py backend) = backendToPlatform py backend from rfl, htarget]

theorem prepareSpec_win (hlower : KeepsPlain py.lower) {reads : Reads} {spec : JobSpec} :
    prepareSpecForInference py policy reads spec "lmstudio-win" (some "win") =
      prepareSpecForInference py policy reads spec "lmstudio-win" none := by
  rw [prepareSpecForInference, prepareSpecForInference, backendToPlatform_win hlower]
  rfl

/-- The metadata that are filled keep every other entry. -/
theorem ensure_get? {env : ModelEnv} {backend : String} {metadata metadata' : Metadata}
    {role specialization target : Option String}
    (h : ensureMetadataModel py env backend metadata role specialization target = some metadata')
    {key : String} (hkey : key ≠ "model") : Entries.get? metadata' key = Entries.get? metadata key := by
  rw [ensureMetadataModel] at h
  split at h
  · cases h
    rfl
  · obtain ⟨m, -, rfl⟩ := Option.map_eq_some_iff.mp h
    rw [Entries.get?_set, if_neg hkey.symm]

/-- The default of the backend is blank. -/
def BlankDefault (py : PyRuntime) (env : ModelEnv) (backend : String) : Prop :=
  ∃ d, defaultModel py env backend (winTarget py backend) = some d ∧ strip d = ""

theorem not_blankDefault_mac (hlower : KeepsPlain py.lower) (env : ModelEnv) :
    ¬ BlankDefault py env "lmstudio-mac" := by
  rintro ⟨d, hd, hblank⟩
  rw [winTarget, backendToPlatform_mac hlower (by simp), if_neg (by decide), defaultModel,
    normalizeBackend_plain hlower (by simp)] at hd
  have hplat : ¬ (strip (py.lower (Option.getD none "")) = "win" ∨ "lmstudio-mac" = "lmstudio-win") := by
    rw [Option.getD_none, hlower "" rfl]
    decide
  simp only [if_neg hplat] at hd
  rw [if_neg (by decide), if_pos trivial] at hd
  split at hd
  · cases hd
  · rename_i hnonblank
    cases hd
    exact hnonblank hblank

/-- What passed the check is what is resolved behind it, unless the metadata stay without a model and the
environment has changed. -/
theorem prepareSpec_spec {reads : Reads} {spec spec' : JobSpec} {backend : String}
    (hreq : backendRequiresDispatchModel py backend = true)
    (h : prepareSpecForInference py policy reads spec backend none = some spec') :
    (∀ key ≠ "model", Entries.get? spec'.metadata key = Entries.get? spec.metadata key) ∧
      ∀ env m, resolveDispatchModel py env backend spec'.metadata spec'.role spec'.specialization
          (winTarget py backend) = some m →
        checkAffinity py policy m (backendToPlatform py backend) = true ∨
          env ≠ reads.atCheck ∧ BlankDefault py reads.atEnsure backend := by
  rw [prepareSpec_eq hreq] at h
  obtain ⟨metadata, hensure, h⟩ := Option.bind_eq_some_iff.mp h
  obtain ⟨checked, hchecked, h⟩ := Option.bind_eq_some_iff.mp h
  split at h
  · rename_i hpass
    cases h
    refine ⟨fun key hkey => ensure_get? hensure hkey, fun env m hm => ?_⟩
    rcases ensure_cases hensure with hexplicit | ⟨hnone, hrole, hdefault⟩
    · left
      rw [resolve_explicit hexplicit] at hchecked hm
      cases hchecked
      cases hm
      exact hpass
    · by_cases henv : env = reads.atCheck
      · left
        subst henv
        rw [hchecked] at hm
        cases hm
        exact hpass
      · exact .inr ⟨henv, hdefault⟩
  · cases h

/-! ## What a job that was accepted posts -/

/-- The gate of a submission takes the endpoint of the submitter away and changes nothing else. -/
theorem submitJob_spec {env : ModelEnv} {spec job : JobSpec}
    (h : submitJob py guards policy env spec = some job) :
    job = { spec with metadata := Entries.erase spec.metadata "_win_endpoint" } := by
  rw [submitJob] at h
  dsimp only at h
  split at h
  · cases h
  · split at h
    · obtain ⟨m, -, h⟩ := Option.bind_eq_some_iff.mp h
      split at h
      · cases h
        rfl
      · cases h
    · cases h
      rfl

/-- A dispatched job goes to the Windows worker that the probe has found, or to the worker of its backend. -/
theorem dispatch_cases (hlower : KeepsPlain py.lower) {reads : Reads} {winUrl : Option String}
    {job : JobSpec} {posted : Posted}
    (hdispatch : dispatch py guards policy reads winUrl job = some (.worker posted)) :
    (∃ url spec p, winUrl = some url ∧
        (macLocalBackends.contains (resolveBackend job) || resolveBackend job = "lmstudio-win") = true ∧
        prepareSpecForInference py policy reads job "lmstudio-win" none = some spec ∧
        runWorker py guards reads.atWorker "lmstudio-win"
          { spec with metadata := Entries.set spec.metadata "_win_endpoint" (.str url) } = some p ∧
        posted = { p with routedToWindows := macLocalBackends.contains (resolveBackend job) }) ∨
      (winUrl = none ∨
          (macLocalBackends.contains (resolveBackend job) || resolveBackend job = "lmstudio-win") = false) ∧
        ∃ spec, runWorker py guards reads.atWorker posted.worker spec = some posted ∧
          ((workerBackend posted.worker).isSome → posted.worker = resolveBackend job ∧
            prepareSpecForInference py policy reads job posted.worker none = some spec) := by
  have hnormal : ∀ h : ((if backendRequiresDispatchModel py (resolveBackend job) then
        prepareSpecForInference py policy reads job (resolveBackend job) none
      else some job).bind (runWorker py guards reads.atWorker
        (if workerRegistry.contains (resolveBackend job) then resolveBackend job else "echo"))) =
          some posted,
      ∃ spec, runWorker py guards reads.atWorker posted.worker spec = some posted ∧
        ((workerBackend posted.worker).isSome → posted.worker = resolveBackend job ∧
          prepareSpecForInference py policy reads job posted.worker none = some spec) := by
    intro h
    obtain ⟨spec, hspec, hrun⟩ := Option.bind_eq_some_iff.mp h
    have hworker := (runWorker_spec hlower hrun).1
    refine ⟨spec, by rwa [hworker], fun hsome => ?_⟩
    rw [hworker] at hsome ⊢
    split at hsome
    · rw [if_pos (requires_of_worker hlower hsome)] at hspec
      rename_i hreg
      rw [if_pos hreg]
      exact ⟨rfl, hspec⟩
    · cases hsome
  have h : dispatchBackend py guards policy reads winUrl job = some posted := by
    obtain ⟨found, -, h⟩ := Option.bind_eq_some_iff.mp hdispatch
    split at h
    · cases h
    · obtain ⟨p, hp, heq⟩ := Option.map_eq_some_iff.mp h
      cases heq
      exact hp
  unfold dispatchBackend at h
  dsimp only at h
  split at h
  · rename_i hprobe
    split at h
    · exact .inr ⟨.inl rfl, hnormal h⟩
    · rename_i url
      obtain ⟨spec, hspec, h⟩ := Option.bind_eq_some_iff.mp h
      obtain ⟨p, hrun, rfl⟩ := Option.map_eq_some_iff.mp h
      rw [prepareSpec_win hlower] at hspec
      exact .inl ⟨url, spec, p, rfl, hprobe, hspec, hrun, rfl⟩
  · rename_i hprobe
    exact .inr ⟨.inr (by simpa using hprobe), hnormal h⟩

theorem strip_ne_empty {s : String} (h : strip s ≠ "") : strip (strip s) ≠ "" := by
  have hblank : PyText.blank (strip s) = false := by
    rw [PyText.blank_eq_false_iff]
    have hne : (s.toList.dropWhile PyText.isSpace).reverse.dropWhile PyText.isSpace ≠ [] := by
      intro hnil
      rw [strip, hnil] at h
      exact h rfl
    refine ⟨_, ?_, List.head_dropWhile_not _ hne⟩
    rw [strip, String.toList_ofList, List.mem_reverse]
    exact List.head_mem hne
  simpa [PyText.blank] using hblank

/-- The Mac server of LM Studio is never sent a blank model. -/
theorem resolve_mac_ne_blank (hlower : KeepsPlain py.lower) {env : ModelEnv} {metadata : Metadata}
    {role specialization : Option String} {m : String}
    (h : resolveDispatchModel py env "lmstudio-mac" metadata role specialization
      (winTarget py "lmstudio-mac") = some m) : strip m ≠ "" := by
  by_cases hexplicit : explicitModel py metadata = ""
  · rw [resolve_blank hexplicit] at h
    rcases Option.or_eq_some_iff.mp h with hrole | ⟨-, hdefault⟩
    · rw [(roleMapped_trimmed hrole).1]
      exact (roleMapped_trimmed hrole).2
    · exact fun hblank => not_blankDefault_mac hlower env ⟨m, hdefault, hblank⟩
  · rw [resolve_explicit hexplicit] at h
    cases h
    rw [explicitModel] at hexplicit ⊢
    split at hexplicit
    · exact strip_ne_empty hexplicit
    · exact absurd rfl hexplicit

/-- The model that is posted has passed the check of the platform it goes to, unless its default was blank
and the environment has changed behind the check. -/
def PostsChecked (py : PyRuntime) (policy : Policy) (reads : Reads) (posted : Posted) : Prop :=
  ∀ m, posted.model = some m →
    checkAffinity py policy m (backendToPlatform py posted.worker) = true ∨
      reads.atWorker ≠ reads.atCheck ∧ BlankDefault py reads.atEnsure posted.worker

theorem PostsChecked.mac {reads : Reads} {posted : Posted} (h : PostsChecked py policy reads posted)
    (hlower : KeepsPlain py.lower) (hworker : posted.worker = "lmstudio-mac") {m : String}
    (hm : posted.model = some m) : checkAffinity py policy m "mac" = true := by
  rcases h m hm with hpass | ⟨-, hblank⟩
  · rwa [hworker, backendToPlatform_mac hlower (by simp)] at hpass
  · rw [hworker] at hblank
    exact absurd hblank (not_blankDefault_mac hlower _)

/-- `str.lower` of ASCII. -/
def lowerAscii (s : String) : String := .ofList (s.toList.map Char.toLower)

theorem keepsPlain_lowerAscii : KeepsPlain lowerAscii := by
  intro s hs
  have hmap : s.toList.map Char.toLower = s.toList := by
    refine (List.map_congr_left fun c hc => ?_).trans (List.map_id _)
    have hplain := List.all_eq_true.mp hs c hc
    have hnot : ¬ (c.val ≥ 65 ∧ c.val ≤ 90) := by
      rintro ⟨hge, hle⟩
      simp only [Bool.or_eq_true, beq_iff_eq] at hplain
      rcases hplain with hplain | rfl
      · change (decide (c.val ≥ 97) && decide (c.val ≤ 122)) = true at hplain
        rw [Bool.and_eq_true, decide_eq_true_eq, ge_iff_le] at hplain
        exact absurd (UInt32.le_trans hplain.1 hle) (by decide)
      · exact absurd hge (by decide)
    exact dif_neg hnot
  rw [lowerAscii, hmap, String.ofList_toList]

def samplePy : PyRuntime := ⟨lowerAscii, fun _ => "?"⟩

def samplePolicy : Policy := ⟨["Qwen3.5-27B"], ["Qwen3.5-9B-MLX-4bit"]⟩

def sampleSpec : JobSpec :=
  { intent := "freeform"
    metadata := [("model", .str " Qwen3.5-4B "), ("_win_endpoint", .str "http://submitted")] }

/-- Nothing else raises. -/
def sampleGuards : Guards where
  overLimit _ := false
  skillEnvelope _ := some false
  stops _ _ := false

def samplePosted : Posted :=
  { worker := "lmstudio-win", model := some "Qwen3.5-4B", winEndpoint := some (.str "http://probed")
    routedToWindows := true }

/-- Whatever was submitted, and whatever the probe finds: what is posted has been checked. The Mac
server of LM Studio is posted no model that is blank or unchecked, the Windows worker no endpoint but
the one that the probe has found. -/
theorem dispatch_affine (hlower : KeepsPlain py.lower) {env : ModelEnv} {reads : Reads}
    {winUrl : Option String} {spec job : JobSpec} {posted : Posted}
    (hsubmit : submitJob py guards policy env spec = some job)
    (hdispatch : dispatch py guards policy reads winUrl job = some (.worker posted)) :
    PostsChecked py policy reads posted ∧
      (posted.worker = "lmstudio-mac" → ∀ m, posted.model = some m →
        checkAffinity py policy m "mac" = true ∧ strip m ≠ "") ∧
      posted.winEndpoint = (if posted.worker = "lmstudio-win" then
        (winUrl.map Value.str).filter Value.truthy else none) ∧
      (posted.routedToWindows = true ↔
        winUrl.isSome ∧ macLocalBackends.contains (resolveBackend spec) = true) := by
  have hbackend : resolveBackend job = resolveBackend spec := by
    rw [submitJob_spec hsubmit]
    rfl
  have hclean : Entries.get? job.metadata "_win_endpoint" = none := by
    rw [submitJob_spec hsubmit, Entries.get?_erase, if_pos rfl]
  have hwin : backendRequiresDispatchModel py "lmstudio-win" = true := requires_of_worker hlower rfl
  rw [← hbackend]
  rcases dispatch_cases hlower hdispatch with
    ⟨url, spec', p, rfl, hprobe, hprepare, hrun, hposted⟩ | ⟨hnoprobe, spec', hrun, hprepare⟩
  · -- the probe has found an endpoint: the Windows worker takes the job
    obtain ⟨hworker, -, hendpoint, hmodel⟩ := runWorker_spec hlower hrun
    obtain ⟨-, hchecked⟩ := prepareSpec_spec hwin hprepare
    have hworker' : posted.worker = "lmstudio-win" := by rw [hposted, hworker]
    have haffine : PostsChecked py policy reads posted := by
      intro m hm
      rw [hworker']
      refine hchecked reads.atWorker m ?_
      rw [hposted] at hm
      dsimp only at hm
      rw [hmodel, if_pos (show (workerBackend "lmstudio-win").isSome = true from rfl)] at hm
      rw [← hm]
      exact resolve_congr (explicitModel_setEndpoint _ _).symm
    refine ⟨haffine, fun h => ?_, ?_, ?_⟩
    · rw [hworker'] at h
      exact absurd h (by decide)
    · rw [if_pos hworker', hposted]
      dsimp only
      rw [hendpoint, if_pos rfl, Entries.get?_set, if_pos rfl]
      rfl
    · rw [hposted]
      simp
  · -- the job stays with the worker of its backend
    obtain ⟨-, hrouted, hendpoint, hmodel⟩ := runWorker_spec hlower hrun
    have haffine : PostsChecked py policy reads posted := by
      intro m hm
      rw [hmodel] at hm
      split at hm
      · rename_i hsome
        exact (prepareSpec_spec (requires_of_worker hlower hsome) (hprepare hsome).2).2 _ m hm
      · cases hm
    refine ⟨haffine, fun h m hm => ⟨haffine.mac hlower h hm, ?_⟩, ?_, ?_⟩
    · rw [h] at hmodel
      rw [hmodel, if_pos (show (workerBackend "lmstudio-mac").isSome = true from rfl)] at hm
      exact resolve_mac_ne_blank hlower hm
    · rw [hendpoint]
      split
      · rename_i hworker
        obtain ⟨hown, hspec⟩ := hprepare (by rw [hworker]; rfl)
        rw [hworker] at hspec
        have hnone : winUrl = none := by
          rcases hnoprobe with h | h
          · exact h
          · rw [← hown, hworker] at h
            exact absurd h (by decide)
        rw [(prepareSpec_spec hwin hspec).1 _ (by decide), hclean, hnone]
        rfl
      · rfl
    · rw [hrouted]
      rcases hnoprobe with h | h
      · simp [h]
      · simp only [Bool.or_eq_false_iff] at h
        simp only [Bool.false_eq_true, h.1, and_false]

theorem dispatch_affine_sampleSpec :
    samplePosted.winEndpoint = (if samplePosted.worker = "lmstudio-win" then
      ((some "http://probed").map Value.str).filter Value.truthy else none) ∧
      checkAffinity samplePy samplePolicy "Qwen3.5-4B" "win" = true :=
  have h := dispatch_affine (show KeepsPlain samplePy.lower from keepsPlain_lowerAscii)
    (show submitJob samplePy sampleGuards samplePolicy {} sampleSpec =
      some { sampleSpec with metadata := [("model", .str " Qwen3.5-4B ")] } from rfl)
    (show dispatch samplePy sampleGuards samplePolicy ⟨{}, {}, {}⟩ (some "http://probed")
      { sampleSpec with metadata := [("model", .str " Qwen3.5-4B ")] } =
        some (.worker samplePosted) from rfl)
  ⟨h.2.2.1, (h.1 "Qwen3.5-4B" rfl).resolve_right fun hchanged => hchanged.1 rfl⟩

/-! ## The gate of a submission -/

/-- No default model of the environment has white space at an end. -/
def ModelEnv.Trimmed (env : ModelEnv) : Prop :=
  ∀ d ∈ [env.macLmstudioDefaultModel, env.ollamaMacDefaultModel, env.lmstudioWinDefaultModel],
    strip d = d

theorem ModelEnv.Trimmed.default {env : ModelEnv} (h : env.Trimmed) {backend : String}
    {target : Option String} {d : String} (hd : defaultModel py env backend target = some d) :
    strip d = d := by
  refine h d ?_
  rw [defaultModel] at hd
  dsimp only at hd
  split at hd
  · cases hd
    simp
  · split at hd
    · cases hd
      simp
    · split at hd
      · split at hd
        · cases hd
        · cases hd
          simp
      · cases hd

/-- The gate resolves for no platform what the check resolves for the platform of the backend. -/
theorem resolve_target {env : ModelEnv} {backend : String}
    (hreq : backendRequiresDispatchModel py backend = true) (metadata : Metadata)
    (role specialization : Option String) :
    resolveDispatchModel py env backend metadata role specialization (winTarget py backend) =
      resolveDispatchModel py env backend metadata role specialization none := by
  by_cases hwin : backendToPlatform py backend = "win"
  · have hnorm := normalizeBackend_of_win hreq hwin
    have hrole : roleMappedModel py backend role specialization (some "win") =
        roleMappedModel py backend role specialization none := by
      rw [roleMappedModel, roleMappedModel, hnorm]
      split
      · rfl
      · rename_i mappedBackend mappedModel _
        by_cases hmapped : normalizeBackend py mappedBackend = "lmstudio-win"
        · simp [hmapped]
        · simp [hmapped]
    have hdefault : defaultModel py env backend (some "win") = defaultModel py env backend none := by
      rw [defaultModel, defaultModel, hnorm]
      simp
    rw [winTarget, if_pos hwin, resolveDispatchModel, resolveDispatchModel, hrole, hdefault]
  · rw [winTarget, if_neg hwin]

/-- Filling the metadata changes no model where the defaults are trimmed. -/
theorem ensure_resolve {env : ModelEnv} (htrim : env.Trimmed) {backend : String} {metadata : Metadata}
    {role specialization target : Option String} {m : String}
    (h : resolveDispatchModel py env backend metadata role specialization target = some m) :
    ∃ metadata', ensureMetadataModel py env backend metadata role specialization target =
        some metadata' ∧
      resolveDispatchModel py env backend metadata' role specialization target = some m := by
  rw [ensureMetadataModel]
  by_cases hexplicit : explicitModel py metadata = ""
  · rw [if_neg (by simp [hexplicit]), h]
    refine ⟨_, rfl, ?_⟩
    have hm : strip m = m := by
      rw [resolve_blank hexplicit] at h
      rcases Option.or_eq_some_iff.mp h with hrole | ⟨-, hdefault⟩
      · exact (roleMapped_trimmed hrole).1
      · exact htrim.default hdefault
    by_cases hempty : m = ""
    · rw [← h]
      refine resolve_congr ?_
      rw [explicitModel_set, hm, hempty, hexplicit]
    · rw [resolve_explicit (by rwa [explicitModel_set, hm]), explicitModel_set, hm]
  · rw [if_pos hexplicit]
    exact ⟨metadata, rfl, h⟩

theorem dispatchBackend_none (reads : Reads) (job : JobSpec) :
    dispatchBackend py guards policy reads none job =
      (if backendRequiresDispatchModel py (resolveBackend job) then
        prepareSpecForInference py policy reads job (resolveBackend job) none
      else some job).bind (runWorker py guards reads.atWorker
        (if workerRegistry.contains (resolveBackend job) then resolveBackend job else "echo")) := by
  unfold dispatchBackend
  dsimp only
  split <;> rfl

variable (policy) in
/-- In an environment that stays, the check sees what the gate has seen. -/
theorem prepareSpec_gate {env : ModelEnv} (htrim : env.Trimmed) {job : JobSpec} {backend : String}
    (hreq : backendRequiresDispatchModel py backend = true) {m : String}
    (h : resolveDispatchModel py env backend job.metadata job.role job.specialization none = some m) :
    ∃ metadata, resolveDispatchModel py env backend metadata job.role job.specialization
        (winTarget py backend) = some m ∧
      prepareSpecForInference py policy ⟨env, env, env⟩ job backend none =
        if checkAffinity py policy m (backendToPlatform py backend) then some { job with metadata }
        else none := by
  rw [← resolve_target hreq] at h
  obtain ⟨metadata, hensure, hresolve⟩ := ensure_resolve htrim h
  refine ⟨metadata, hresolve, ?_⟩
  rw [prepareSpec_eq hreq, hensure, Option.bind_some, hresolve, Option.bind_some]

theorem prepareSpec_gate_none {env : ModelEnv} {job : JobSpec} {backend : String}
    (hreq : backendRequiresDispatchModel py backend = true)
    (h : resolveDispatchModel py env backend job.metadata job.role job.specialization none = none) :
    prepareSpecForInference py policy ⟨env, env, env⟩ job backend none = none := by
  rw [← resolve_target hreq] at h
  have hblank : ¬ explicitModel py job.metadata ≠ "" := by
    intro hexplicit
    rw [resolve_explicit hexplicit] at h
    cases h
  rw [prepareSpec_eq hreq, ensureMetadataModel, if_neg hblank, h]
  rfl

/-- A worker whose model is resolved does not raise. -/
theorem runWorker_ne_none (hlower : KeepsPlain py.lower) {env : ModelEnv} {worker : String}
    {spec : JobSpec} (hgo : guards.stops worker spec = false) (h : (workerBackend worker).isSome →
      resolveDispatchModel py env worker spec.metadata spec.role spec.specialization
        (winTarget py worker) ≠ none) : runWorker py guards env worker spec ≠ none := by
  rw [runWorker, hgo, if_neg Bool.false_ne_true]
  cases hworker : workerBackend worker with
  | none => simp
  | some pair =>
      obtain ⟨backend, target⟩ := pair
      rw [hworker] at h
      simpa [resolve_worker hlower hworker] using h rfl

/-- The worker of a backend in the registry is its own, and another backend has none with a model. -/
theorem worker_of_backend {backend : String}
    (h : (workerBackend (if workerRegistry.contains backend then backend else "echo")).isSome) :
    (if workerRegistry.contains backend then backend else "echo") = backend := by
  split at h
  · rename_i hreg
    exact if_pos hreg
  · cases h

/-- Where neither a limit nor a skill nor a worker of its own accord decides, the jobs that a submission
refuses are those that would raise at their dispatch. -/
theorem submit_eq_none_iff (hlower : KeepsPlain py.lower) {env : ModelEnv} (htrim : env.Trimmed)
    {spec clean : JobSpec}
    (hclean : { spec with metadata := Entries.erase spec.metadata "_win_endpoint" } = clean)
    (hlimit : guards.overLimit clean = false) (hskill : guards.skillEnvelope clean = some false)
    (hstops : ∀ worker spec, guards.stops worker spec = false) :
    submitJob py guards policy env spec = none ↔
      dispatch py guards policy ⟨env, env, env⟩ none clean = none := by
  have hdispatch : dispatch py guards policy ⟨env, env, env⟩ none clean = none ↔
      dispatchBackend py guards policy ⟨env, env, env⟩ none clean = none := by
    rw [dispatch, hskill, Option.bind_some, if_neg Bool.false_ne_true, Option.map_eq_none_iff]
  have hsubmit : submitJob py guards policy env spec =
      if guards.overLimit clean then none
      else if backendRequiresDispatchModel py (resolveBackend clean) then
        (resolveDispatchModel py env (resolveBackend clean) clean.metadata clean.role
          clean.specialization none).bind fun m =>
            if checkAffinity py policy m (backendToPlatform py (resolveBackend clean)) then some clean
            else none
      else some clean := by
    rw [← hclean]
    rfl
  rw [hlimit, if_neg Bool.false_ne_true] at hsubmit
  rw [hdispatch, hsubmit, dispatchBackend_none]
  by_cases hreq : backendRequiresDispatchModel py (resolveBackend clean) = true
  · rw [if_pos hreq, if_pos hreq]
    cases hm : resolveDispatchModel py env (resolveBackend clean) clean.metadata clean.role
        clean.specialization none with
    | none => simp [prepareSpec_gate_none hreq hm]
    | some m =>
        obtain ⟨metadata, hresolve, hprepare⟩ := prepareSpec_gate policy htrim hreq hm
        rw [hprepare, Option.bind_some]
        by_cases hpass :
            checkAffinity py policy m (backendToPlatform py (resolveBackend clean)) = true
        · rw [if_pos hpass, if_pos hpass, Option.bind_some]
          refine iff_of_false (by simp) (runWorker_ne_none hlower (hstops _ _) fun hsome => ?_)
          rw [worker_of_backend hsome, hresolve]
          simp
        · rw [if_neg hpass, if_neg hpass]
          simp
  · rw [if_neg hreq, if_neg hreq, Option.bind_some]
    refine iff_of_false (by simp) (runWorker_ne_none hlower (hstops _ _) fun hsome => ?_)
    have hreq' := requires_of_worker hlower hsome
    rw [worker_of_backend hsome] at hreq'
    exact absurd hreq' hreq

/-- A worker that asks for a model posts the one that the job resolves to. -/
theorem model_of_dispatch (hlower : KeepsPlain py.lower) {env : ModelEnv} (htrim : env.Trimmed)
    {job : JobSpec} {posted : Posted}
    (hdispatch : dispatch py guards policy ⟨env, env, env⟩ none job = some (.worker posted))
    (hsome : (workerBackend posted.worker).isSome) :
    posted.model = resolveDispatchModel py env (resolveBackend job) job.metadata job.role
      job.specialization none := by
  rcases dispatch_cases hlower hdispatch with ⟨url, _, _, hnone, -⟩ | ⟨-, spec', hrun, hprepare⟩
  · cases hnone
  · obtain ⟨hown, hspec⟩ := hprepare hsome
    have hreq : backendRequiresDispatchModel py (resolveBackend job) = true :=
      hown ▸ requires_of_worker hlower hsome
    rw [hown] at hspec
    obtain ⟨-, -, -, hmodel⟩ := runWorker_spec hlower hrun
    rw [hmodel, if_pos hsome, hown]
    cases hm : resolveDispatchModel py env (resolveBackend job) job.metadata job.role
        job.specialization none with
    | none =>
        rw [prepareSpec_gate_none hreq hm] at hspec
        cases hspec
    | some m =>
        obtain ⟨metadata, hresolve, hprepared⟩ := prepareSpec_gate policy htrim hreq hm
        rw [hprepared] at hspec
        split at hspec
        · cases hspec
          exact hresolve
        · cases hspec

/-- The gate is exact: while the environment stays as it is and no Windows endpoint is found, and where
neither the limits of a submission nor a skill nor a worker of its own accord decide, the jobs that it
refuses are those that would raise at their dispatch; and a worker posts the model that it has seen. -/
theorem gate_exact (hlower : KeepsPlain py.lower) {env : ModelEnv} (htrim : env.Trimmed)
    (spec : JobSpec) :
    (guards.overLimit { spec with metadata := Entries.erase spec.metadata "_win_endpoint" } = false →
      guards.skillEnvelope { spec with metadata := Entries.erase spec.metadata "_win_endpoint" } =
        some false →
      (∀ worker spec, guards.stops worker spec = false) →
      (submitJob py guards policy env spec = none ↔ dispatch py guards policy ⟨env, env, env⟩ none
        { spec with metadata := Entries.erase spec.metadata "_win_endpoint" } = none)) ∧
      ∀ job posted, submitJob py guards policy env spec = some job →
        dispatch py guards policy ⟨env, env, env⟩ none job = some (.worker posted) →
          (workerBackend posted.worker).isSome →
            posted.model = resolveDispatchModel py env (resolveBackend spec) spec.metadata spec.role
              spec.specialization none := by
  generalize hclean : { spec with metadata := Entries.erase spec.metadata "_win_endpoint" } = clean
  have hbackend : resolveBackend clean = resolveBackend spec := by
    rw [← hclean]
    rfl
  have hsame : resolveDispatchModel py env (resolveBackend spec) spec.metadata spec.role
      spec.specialization none = resolveDispatchModel py env (resolveBackend clean) clean.metadata
        clean.role clean.specialization none := by
    rw [hbackend, ← hclean]
    exact resolve_congr (explicitModel_erase _).symm
  rw [hsame]
  refine ⟨submit_eq_none_iff hlower htrim hclean, fun job posted hsubmit hdispatch hsome => ?_⟩
  have hjob : job = clean := by rw [submitJob_spec hsubmit, hclean]
  subst hjob
  exact model_of_dispatch hlower htrim hdispatch hsome

theorem emptyEnv_trimmed : ModelEnv.Trimmed {} := by
  unfold ModelEnv.Trimmed
  decide

/-- A job of the Mac with a model for Windows. -/
def refusedSpec : JobSpec := { intent := "freeform", metadata := [("model", .str "Qwen3.5-27B")] }

/-- A job of the Mac that is accepted, and one that is refused. -/
theorem gate_exact_sampleSpec :
    resolveDispatchModel samplePy {} (resolveBackend sampleSpec) sampleSpec.metadata sampleSpec.role
      sampleSpec.specialization none = some "Qwen3.5-4B" ∧
    dispatch samplePy sampleGuards samplePolicy ⟨{}, {}, {}⟩ none refusedSpec = none := by
  have hlower : KeepsPlain samplePy.lower := keepsPlain_lowerAscii
  refine ⟨?_, ?_⟩
  · have h := @gate_exact _ sampleGuards samplePolicy hlower _ emptyEnv_trimmed sampleSpec
    exact (h.2 { sampleSpec with metadata := [("model", .str " Qwen3.5-4B ")] }
      { worker := "ollama", model := some "Qwen3.5-4B" }
      (show submitJob samplePy sampleGuards samplePolicy {} sampleSpec = _ from rfl) rfl rfl).symm
  · have h := @gate_exact _ sampleGuards samplePolicy hlower _ emptyEnv_trimmed refusedSpec
    exact (h.1 rfl rfl fun _ _ => rfl).mp rfl

end Perpetua.Supervisor.Dispatch

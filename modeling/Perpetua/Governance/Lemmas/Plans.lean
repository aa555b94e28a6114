import Perpetua.Governance.Lemmas.Checks

/-!
# Plans

What the planner selects, and for which models it consults the gate. What the arguments need of the
pins is collected in `Config.Consistent`.
-/

namespace Perpetua.Governance

/-! ## Pins -/

/-- The efforts that a row lists. -/
def Row.efforts (row : Row) : Option (List String) :=
  row.allowedEfforts <|> row.effort.map ([·]) <|> row.reasoningEffort.map ([·])

/-- A row that lists no effort leaves the effort out, or at medium. -/
def Row.PermitsEffort (row : Row) (effort : Option String) : Prop :=
  match row.efforts with
  | some efforts => effort ∈ efforts.map some
  | none => effort = none ∨ effort = some "medium"

/-- The row names the model, with an effort that it permits, and the launch is not fast. -/
structure Pin.Permits (pin : Pin) (spec : LaunchSpec) : Prop where
  names : spec.launchId = pin.launchId ∨ pin.legacyPin = some spec.launchId
  effort : pin.PermitsEffort (namedEffort spec)
  notFast : spec.fast ≠ some true

def Provider.roles (policy : Provider) : List Pin :=
  policy.planning.toList ++ policy.controller.toList

/-- The rows of a provider that need no proof. -/
def Provider.ungated (policy : Provider) (taskKind : Option String) : List Pin :=
  policy.default :: policy.allowedUngated ++ policy.controller.toList ++
    if taskKind = some "planning" then policy.planning.toList else []

/-- A path with the provider whose pins decide its launches. -/
def harnessPaths : List (String × String) :=
  [("cursor_grok_bot", "cursor_grok_bot"), ("cursor_grok_bot", "anthropic"),
    ("anthropic", "anthropic"), ("openai", "openai"), ("google", "google"),
    ("direct_xai", "direct_xai")]

def taskKinds : List (Option String) := [none, some "planning", some "execution"]

/-- Whether the default of a path needs an approval itself. -/
def defaultNeedsApproval (cfg : Config) (path provider : String) (taskKind : Option String) :
    Except PolicyError Bool := do
  let fallback ← defaultLaunch cfg provider
  let plan ← planLaunch cfg { fallback with path } taskKind "standard" 2
  return plan.requiresHumanApproval

/-- The rows of a provider with roles. -/
structure Provider.Consistent (policy : Provider) : Prop where
  roles : ∀ pin ∈ policy.roles, pin.effort ≠ none ∧ pin.fast = some false
  controller : ∀ pin ∈ policy.controller.toList,
    policy.isPlanning pin.launchId = false ∧ Entries.get? policy.gated pin.launchId = none
  /-- No row is the editor's automatic choice. -/
  named : ∀ id ∈ policy.default.launchId ::
    policy.roles.map (·.launchId) ++ policy.gated.map Prod.fst, id ≠ "auto" ∧ id ≠ "default"

/-- What the arguments need of the pins. -/
structure Config.Consistent (cfg : Config) : Prop where
  anthropic : cfg.anthropic.Consistent
  openai : cfg.openai.Consistent
  google : cfg.google.Consistent
  claude : ∀ pin ∈ cfg.anthropic.roles, isClaude pin.launchId = true
  escalated : ∀ id ∈ cfg.anthropic.planning.toList.map (·.launchId) ++
    cfg.anthropic.gated.map Prod.fst, id ∉ anthropicUngatedIds cfg
  sonnet : cfg.anthropic.default.efforts = some ["medium"]
  defaults : ∀ pin ∈ [cfg.openai.default, cfg.google.default, cfg.cursorGrokBot.default],
    pin.effort ≠ none ∧ pin.fast = some false
  cursor : ∀ pin ∈ cfg.cursorGrokBot.allowedUngated, pin.fast = some false ∧
    (pin.effort = none → pin.efforts = none)
  grok : cfg.directXai.default.allowedEfforts = none ∧ cfg.directXai.default.effort = none
  roleless : ∀ policy ∈ [cfg.cursorGrokBot, cfg.directXai], policy.roles = [] ∧ policy.gated = []
  fallback : ∀ p ∈ harnessPaths, ∀ taskKind ∈ taskKinds,
    defaultNeedsApproval cfg p.1 p.2 taskKind = .ok false

theorem checkedIn_consistent : checkedIn.Consistent where
  anthropic := ⟨by decide +kernel, by decide +kernel, by decide +kernel⟩
  openai := ⟨by decide +kernel, by decide +kernel, by decide +kernel⟩
  google := ⟨by decide +kernel, by decide +kernel, by decide +kernel⟩
  claude := by decide +kernel
  escalated := by decide +kernel
  sonnet := rfl
  defaults := by decide +kernel
  cursor := by decide +kernel
  grok := ⟨rfl, rfl⟩
  roleless := by
    simp [checkedIn, Provider.roles]
  fallback := by decide +kernel

/-- The controller is neither the planning model nor gated. -/
theorem Provider.Consistent.of_controller {policy : Provider} (hc : policy.Consistent)
    {launchId : String} (h : policy.controller.any (·.launchId = launchId) = true) :
    policy.isPlanning launchId = false ∧ Entries.get? policy.gated launchId = none := by
  cases hcontroller : policy.controller with
  | none => simp [hcontroller] at h
  | some pin =>
      have hid : pin.launchId = launchId := by simpa [hcontroller] using h
      exact hid ▸ hc.controller pin (by simp [hcontroller])

/-! ## Rows -/

/-- A row with an effort permits what `_assert_gated_params` accepts. -/
theorem Row.permitsEffort_of_params {spec : LaunchSpec} {row : Row} (he : row.effort ≠ none)
    (h : assertGatedParams spec row = .ok ()) : row.PermitsEffort (namedEffort spec) := by
  obtain ⟨wanted, hwanted⟩ := Option.ne_none_iff_exists'.mp he
  have := (assertGatedParams_ok.mp h).1 wanted hwanted
  unfold PermitsEffort efforts
  cases hallowed : row.allowedEfforts with
  | none => simpa [hallowed, hwanted] using this
  | some allowed => simpa [hallowed] using this

theorem fast_of_params {spec : LaunchSpec} {row : Row} (hf : row.fast = some false)
    (h : assertGatedParams spec row = .ok ()) : spec.fast ≠ some true := by
  rw [(assertGatedParams_ok.mp h).2 false hf]
  simp

/-! ## Roles -/

theorem Provider.role?_some {policy : Provider} {launchId : String} {pin : Pin}
    (h : policy.role? launchId = some pin) : pin ∈ policy.roles ∧ pin.launchId = launchId ∧
      (policy.planning = some pin ∨ policy.isPlanning launchId = false ∧
        policy.controller = some pin) := by
  rcases Option.or_eq_some_iff.mp h with h | ⟨hnone, h⟩
  · obtain ⟨hp, hid⟩ := Option.filter_eq_some_iff.mp h
    simp only [decide_eq_true_eq] at hid
    exact ⟨by simp [roles, hp], hid, .inl hp⟩
  · obtain ⟨hp, hid⟩ := Option.filter_eq_some_iff.mp h
    simp only [decide_eq_true_eq] at hid
    refine ⟨by simp [roles, hp], hid, .inr ⟨?_, hp⟩⟩
    rw [isPlanning, Option.any_eq_false]
    simpa [Option.filter_eq_none_iff] using hnone

theorem Provider.role?_none {policy : Provider} {launchId : String} :
    policy.role? launchId = none ↔ policy.isPlanning launchId = false ∧
      policy.controller.any (·.launchId = launchId) = false := by
  rw [role?, Option.or_eq_none_iff, isPlanning, Option.any_eq_false, Option.any_eq_false]
  simp [Option.filter_eq_none_iff]

/-- A role permits the effort of what is plannable under it. -/
theorem assertPlannable_role {policy : Provider} (hc : policy.Consistent) {spec : LaunchSpec}
    {check : Except PolicyError Unit} {pin : Pin} (hrole : policy.role? spec.launchId = some pin)
    (h : assertPlannable policy spec check = .ok ()) : pin.Permits spec := by
  obtain ⟨hmem, hid, -⟩ := Provider.role?_some hrole
  obtain ⟨heffort, hfast⟩ := hc.roles pin hmem
  obtain ⟨effort, heffort⟩ := Option.ne_none_iff_exists'.mp heffort
  unfold assertPlannable at h
  simp only [hrole, refuse, Except.check_eq_ok, not_not] at h
  obtain ⟨hnamed, hparams⟩ := h
  have hnotFast : spec.fast ≠ some true := by
    apply fast_of_params _ hparams
    exact hfast
  refine ⟨.inl hid.symm, ?_, hnotFast⟩
  unfold Row.PermitsEffort Row.efforts
  cases hallowed : pin.allowedEfforts with
  | none => simpa [hallowed, heffort] using hnamed
  | some allowed => simpa [hallowed] using hnamed

/-- The rows of the provider decide about the launch without the gate. -/
def Provider.Decides (policy : Provider) (spec : LaunchSpec) : Prop :=
  (policy.role? spec.launchId).isSome ∨ (Entries.get? policy.gated spec.launchId).isSome ∨
    providerOf spec = "openai" ∨ providerOf spec = "google"

theorem assertPlannable_congr {policy : Provider} {spec : LaunchSpec} (h : policy.Decides spec)
    (check check' : Except PolicyError Unit) :
    assertPlannable policy spec check = assertPlannable policy spec check' := by
  unfold assertPlannable
  cases hrole : policy.role? spec.launchId with
  | some pin => rfl
  | none =>
      cases hgated : Entries.get? policy.gated spec.launchId with
      | some row => rfl
      | none =>
          have hprovider : providerOf spec = "openai" ∨ providerOf spec = "google" := by
            simpa [Provider.Decides, hrole, hgated] using h
          simp only [hprovider, if_true]

theorem assertPlannable_check {policy : Provider} {spec : LaunchSpec} (h : ¬policy.Decides spec)
    (check : Except PolicyError Unit) : assertPlannable policy spec check = check := by
  simp only [Provider.Decides, not_or, Option.not_isSome_iff_eq_none] at h
  obtain ⟨hrole, hgated, hopenai, hgoogle⟩ := h
  unfold assertPlannable
  simp only [hrole, hgated, hopenai, hgoogle, or_self, if_false]

/-! ## Selection -/

/-- What a plan sends to a human. -/
def NeedsApproval (policy : Provider) (spec : LaunchSpec) (taskKind : Option String)
    (mode : String) : Prop :=
  mode = "ultracode" ∨ (policy.isPlanning spec.launchId = true ∧ taskKind ≠ some "planning") ∨
    ((Entries.get? policy.gated spec.launchId).isSome ∧
      policy.isPlanning spec.launchId = false)

theorem selectPlan_ok {cfg : Config} {policy : Provider} {spec : LaunchSpec}
    {taskKind : Option String} {mode : String} {plan : LaunchPlan}
    (h : selectPlan cfg policy spec taskKind mode = .ok plan) :
    (NeedsApproval policy spec taskKind mode ∧ plan.requiresHumanApproval = true ∧
      ∃ fallback, defaultLaunch cfg (providerOf spec) = .ok fallback ∧
        plan.effective = { fallback with path := spec.path }) ∨
    (¬NeedsApproval policy spec taskKind mode ∧ plan.requiresHumanApproval = false ∧
      plan.effective = spec) := by
  unfold selectPlan at h
  by_cases hneeds : NeedsApproval policy spec taskKind mode
  · rw [if_pos (by simpa [NeedsApproval] using hneeds)] at h
    obtain ⟨fallback, hfallback, h⟩ := Except.bind_eq_ok.mp h
    have h := Except.ok.inj h
    exact .inl ⟨hneeds, by rw [← h], fallback, hfallback, by rw [← h]⟩
  · rw [if_neg (by simpa [NeedsApproval] using hneeds)] at h
    have h := Except.ok.inj h
    exact .inr ⟨hneeds, by rw [← h], by rw [← h]⟩

end Perpetua.Governance

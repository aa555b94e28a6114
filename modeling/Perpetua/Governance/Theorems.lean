import Perpetua.Governance.Lemmas.Plans

/-!
# Default-deny

A launch without a proof names an ungated row, the planner asks for an approval exactly where the
gate refuses, and a proof that does not cover the launch is worth nothing.
-/

namespace Perpetua.Governance

variable {cfg : Config} {spec : LaunchSpec} {a : Approval} {taskKind : Option String}

/-! ## The branches of the gate -/

/-- Anthropic's roles go through the planner. -/
def ByRole (cfg : Config) (spec : LaunchSpec) (taskKind : Option String) : Prop :=
  (spec.path = "anthropic" ∨ spec.path = "cursor_grok_bot") ∧
    (cfg.anthropic.controller.any (·.launchId = spec.launchId) = true ∨
      cfg.anthropic.isPlanning spec.launchId = true ∧ taskKind = some "planning")

def ByPlan (spec : LaunchSpec) : Prop := spec.path = "openai" ∨ spec.path = "google"

theorem assertPath_byPlan (h : ByPlan spec) (ha : a.proof = none)
    {plan : Except PolicyError LaunchPlan} :
    assertPath cfg spec a taskKind plan = .ok () ↔
      ∃ p, plan = .ok p ∧ p.requiresHumanApproval = false := by
  unfold assertPath
  rw [if_pos (by exact h), Except.bind_eq_ok]
  refine exists_congr fun p => and_congr_right fun _ => ?_
  cases p.requiresHumanApproval with
  | false => simp
  | true => simpa using requireToken_none spec ha _

theorem assertPath_byRole (h : ¬ByPlan spec) (hrole : ByRole cfg spec taskKind)
    {plan : Except PolicyError LaunchPlan} :
    assertPath cfg spec a taskKind plan = .ok () ↔ ∃ p, plan = .ok p := by
  unfold assertPath
  rw [if_neg (by exact h), if_pos (by exact hrole), Except.bind_eq_ok]
  simp [pure, Except.pure]

/-- The rest is decided by the launch itself. -/
theorem assertPath_direct (h : ¬ByPlan spec) (hrole : ¬ByRole cfg spec taskKind)
    {plan : Except PolicyError LaunchPlan} :
    assertPath cfg spec a taskKind plan =
      if spec.path = "cursor_grok_bot" then assertCursorLaunch cfg spec a
      else if spec.path = "anthropic" then assertAnthropicLaunch cfg spec a
      else if spec.path = "direct_xai" then assertDirectXaiLaunch cfg spec
      else refuse "unknown harness path" := by
  unfold assertPath
  rw [if_neg (by exact h), if_neg (by exact hrole)]

/-- Without a proof, the rest of the call plays no part in it. -/
theorem assertPath_direct_congr {a' : Approval} {taskKind' : Option String}
    (h : ¬ByPlan spec) (hrole : ¬ByRole cfg spec taskKind) (hrole' : ¬ByRole cfg spec taskKind')
    (ha : a.proof = none) (ha' : a'.proof = none) {plan plan' : Except PolicyError LaunchPlan} :
    assertPath cfg spec a taskKind plan = .ok () ↔
      assertPath cfg spec a' taskKind' plan' = .ok () := by
  rw [assertPath_direct h hrole, assertPath_direct h hrole']
  split
  · cases hid : isClaude spec.launchId with
    | true =>
        rw [assertCursorLaunch, assertCursorLaunch, hid, if_pos rfl, if_pos rfl,
          assertAnthropicLaunch_none ha, assertAnthropicLaunch_none ha']
    | false => rw [assertCursorLaunch_none ha hid, assertCursorLaunch_none ha' hid]
  · split
    · rw [assertAnthropicLaunch_none ha, assertAnthropicLaunch_none ha']
    · rfl

/-! ## Providers -/

theorem provider?_some {name : String} {policy : Provider} (h : cfg.provider? name = some policy) :
    (name = "anthropic" ∧ policy = cfg.anthropic) ∨ (name = "openai" ∧ policy = cfg.openai) ∨
      (name = "google" ∧ policy = cfg.google) ∨
      (name = "cursor_grok_bot" ∧ policy = cfg.cursorGrokBot) ∨
      (name = "direct_xai" ∧ policy = cfg.directXai) := by
  unfold Config.provider? at h
  split at h
  · exact .inl ⟨‹_›, (Option.some.inj h).symm⟩
  split at h
  · exact .inr (.inl ⟨‹_›, (Option.some.inj h).symm⟩)
  split at h
  · exact .inr (.inr (.inl ⟨‹_›, (Option.some.inj h).symm⟩))
  split at h
  · exact .inr (.inr (.inr (.inl ⟨‹_›, (Option.some.inj h).symm⟩)))
  split at h
  · exact .inr (.inr (.inr (.inr ⟨‹_›, (Option.some.inj h).symm⟩)))
  · cases h

/-- What the provider says about the path and the model. -/
theorem providerOf_cases (spec : LaunchSpec) :
    (providerOf spec = "anthropic" ∧ spec.path = "cursor_grok_bot" ∧
      isClaude spec.launchId = true) ∨
    (providerOf spec = spec.path ∧
      ¬(spec.path = "cursor_grok_bot" ∧ isClaude spec.launchId = true)) := by
  unfold providerOf
  split
  · exact .inl ⟨rfl, ‹_›⟩
  · exact .inr ⟨rfl, ‹_›⟩

@[simp] theorem provider?_anthropic : cfg.provider? "anthropic" = some cfg.anthropic := rfl

@[simp] theorem provider?_cursorGrokBot : cfg.provider? "cursor_grok_bot" = some cfg.cursorGrokBot :=
  rfl

@[simp] theorem provider?_directXai : cfg.provider? "direct_xai" = some cfg.directXai := rfl

/-- Anthropic's roles are claude models, which follow Anthropic's pins on the Cursor path too. -/
theorem ByRole.anthropic (hcfg : cfg.Consistent) (h : ByRole cfg spec taskKind) :
    providerOf spec = "anthropic" ∧ (cfg.anthropic.role? spec.launchId).isSome := by
  have hrole : (cfg.anthropic.role? spec.launchId).isSome := by
    rw [← Option.ne_none_iff_isSome, ne_eq, Provider.role?_none]
    rintro ⟨hplanning, hcontroller⟩
    rcases h.2 with h | ⟨h, -⟩
    · simp [hcontroller] at h
    · simp [hplanning] at h
  refine ⟨?_, hrole⟩
  obtain ⟨pin, hpin⟩ := Option.isSome_iff_exists.mp hrole
  obtain ⟨hmem, hid, -⟩ := Provider.role?_some hpin
  rcases h.1 with hpath | hpath
  · simp [providerOf, hpath]
  · simp [providerOf, hpath, ← hid, hcfg.claude pin hmem]

/-! ## Ungated rows -/

/-- What is planned without an approval names an ungated row. -/
theorem planned_ungated {policy : Provider} (hc : policy.Consistent)
    {check : Except PolicyError Unit} (hplan : assertPlannable policy spec check = .ok ())
    (hplanning : policy.isPlanning spec.launchId = true → taskKind = some "planning")
    {pin : Pin} (hrole : policy.role? spec.launchId = some pin) :
    ∃ pin ∈ policy.ungated taskKind, pin.Permits spec := by
  refine ⟨pin, ?_, assertPlannable_role hc hrole hplan⟩
  obtain ⟨-, hid, hp | ⟨-, hp⟩⟩ := Provider.role?_some hrole
  · have := hplanning (by simp [Provider.isPlanning, hp, hid])
    simp [Provider.ungated, this, hp]
  · simp [Provider.ungated, hp]

theorem default_ungated {policy : Provider} (hd : policy.default.effort ≠ none ∧
    policy.default.fast = some false) (hid : spec.launchId = policy.default.launchId)
    (h : assertGatedParams spec policy.default.toRow = .ok ()) :
    ∃ pin ∈ policy.ungated taskKind, pin.Permits spec := by
  refine ⟨policy.default, List.mem_cons_self, .inl hid, ?_, fast_of_params hd.2 h⟩
  exact Row.permitsEffort_of_params hd.1 h

/-- On the OpenAI and Google paths. -/
theorem byPlan_ungated {policy : Provider} (hc : policy.Consistent)
    (hd : policy.default.effort ≠ none ∧ policy.default.fast = some false)
    {check : Except PolicyError Unit} (hplan : assertPlannable policy spec check = .ok ())
    (hprovider : providerOf spec = "openai" ∨ providerOf spec = "google")
    (hneeds : ¬NeedsApproval policy spec taskKind "standard") :
    ∃ pin ∈ policy.ungated taskKind, pin.Permits spec := by
  simp only [NeedsApproval, not_or, not_and, not_not] at hneeds
  obtain ⟨-, hplanning, hgated⟩ := hneeds
  cases hrole : policy.role? spec.launchId with
  | some pin => exact planned_ungated hc hplan hplanning hrole
  | none =>
      obtain ⟨hplanning', -⟩ := Provider.role?_none.mp hrole
      cases hrow : Entries.get? policy.gated spec.launchId with
      | some row => simp [hrow, hplanning'] at hgated
      | none =>
          unfold assertPlannable at hplan
          simp only [hrole, hrow, hprovider, if_true, refuse, Except.check_eq_ok, not_not] at hplan
          exact default_ungated hd hplan.1 hplan.2

theorem anthropic_ungated (hcfg : cfg.Consistent) (ha : a.proof = none)
    (h : assertAnthropicLaunch cfg spec a = .ok ()) :
    ∃ pin ∈ cfg.anthropic.ungated taskKind, pin.Permits spec := by
  obtain ⟨hfast, hid, heffort⟩ := (assertAnthropicLaunch_none ha).mp h
  refine ⟨cfg.anthropic.default, List.mem_cons_self, ?_, ?_, hfast⟩
  · rcases List.mem_cons.mp hid with hid | hid
    · exact .inl hid
    · exact .inr (Option.filter_eq_some_iff.mp (Option.mem_toList.mp hid)).1
  · rw [heffort, Row.PermitsEffort, hcfg.sonnet]
    simp

theorem cursor_ungated (hcfg : cfg.Consistent) (ha : a.proof = none)
    (hid : isClaude spec.launchId = false) (h : assertCursorLaunch cfg spec a = .ok ()) :
    ∃ pin ∈ cfg.cursorGrokBot.ungated taskKind, pin.Permits spec := by
  have hdefault := hcfg.defaults cfg.cursorGrokBot.default (by simp)
  rcases (assertCursorLaunch_none ha hid).mp h with ⟨hid, hparams⟩ |
    ⟨hne, hfast, hmedium, pin, hpin, hparams⟩
  · exact default_ungated hdefault hid hparams
  · have hname : pin.launchId = spec.launchId := by simpa using List.find?_some hpin
    have hmem : pin ∈ cfg.cursorGrokBot.allowedUngated := by
      rcases List.mem_cons.mp (List.mem_of_find?_eq_some hpin) with rfl | hmem
      · exact absurd hname.symm hne
      · exact hmem
    refine ⟨pin, by simp [Provider.ungated, hmem], .inl hname.symm, ?_, hfast⟩
    by_cases heffort : pin.effort = none
    · rw [Row.PermitsEffort, (hcfg.cursor pin hmem).2 heffort]
      exact hmedium
    · exact Row.permitsEffort_of_params heffort hparams

theorem directXai_ungated (hcfg : cfg.Consistent) (h : assertDirectXaiLaunch cfg spec = .ok ()) :
    ∃ pin ∈ cfg.directXai.ungated taskKind, pin.Permits spec := by
  obtain ⟨hid, hfast, wanted, hwanted, heffort⟩ := assertDirectXaiLaunch_ok.mp h
  refine ⟨cfg.directXai.default, List.mem_cons_self, .inl hid, ?_, hfast⟩
  simp [Row.PermitsEffort, Row.efforts, hcfg.grok, hwanted, heffort]

/-- Default-deny: a launch without a proof names an ungated row of its provider. -/
theorem ungated_of_allowed (hcfg : cfg.Consistent) (ha : a.proof = none) {depth : ℕ}
    (h : assertLaunchAllowed cfg spec a taskKind depth = .ok ()) :
    ∃ policy, cfg.provider? (providerOf spec) = some policy ∧
      ∃ pin ∈ policy.ungated taskKind, pin.Permits spec := by
  cases depth with
  | zero => cases h
  | succ depth =>
      rw [assertLaunchAllowed] at h
      obtain ⟨-, -, -, h⟩ := assertWith_ok.mp h
      by_cases hbyPlan : ByPlan spec
      · obtain ⟨plan, hplan, hhuman⟩ := (assertPath_byPlan hbyPlan ha).mp h
        cases depth with
        | zero => cases hplan
        | succ depth =>
            rw [planLaunch] at hplan
            obtain ⟨-, -, policy, hpolicy, hplannable, hselect⟩ := planWith_ok.mp hplan
            refine ⟨policy, hpolicy, ?_⟩
            have hneeds : ¬NeedsApproval policy spec taskKind "standard" := by
              rcases selectPlan_ok hselect with ⟨-, htrue, -⟩ | ⟨hneeds, -⟩
              · simp [hhuman] at htrue
              · exact hneeds
            have hprovider : providerOf spec = "openai" ∨ providerOf spec = "google" := by
              rcases hbyPlan with hpath | hpath <;> simp [providerOf, hpath]
            rcases hprovider with hp | hp <;> rw [hp] at hpolicy <;> cases hpolicy
            · exact byPlan_ungated hcfg.openai (hcfg.defaults _ (by simp)) hplannable (.inl hp) hneeds
            · exact byPlan_ungated hcfg.google (hcfg.defaults _ (by simp)) hplannable (.inr hp) hneeds
      by_cases hbyRole : ByRole cfg spec taskKind
      · obtain ⟨plan, hplan⟩ := (assertPath_byRole hbyPlan hbyRole).mp h
        obtain ⟨hprovider, hrole⟩ := hbyRole.anthropic hcfg
        obtain ⟨pin, hpin⟩ := Option.isSome_iff_exists.mp hrole
        cases depth with
        | zero => cases hplan
        | succ depth =>
            rw [planLaunch] at hplan
            obtain ⟨-, -, policy, hpolicy, hplannable, -⟩ := planWith_ok.mp hplan
            rw [hprovider, provider?_anthropic, Option.some.injEq] at hpolicy
            subst hpolicy
            refine ⟨cfg.anthropic, by rw [hprovider, provider?_anthropic], ?_⟩
            refine planned_ungated hcfg.anthropic hplannable (fun hplanning => ?_) hpin
            rcases hbyRole.2 with hcontroller | ⟨-, htask⟩
            · simp [(hcfg.anthropic.of_controller hcontroller).1] at hplanning
            · exact htask
      · rw [assertPath_direct hbyPlan hbyRole] at h
        split at h
        · rename_i hpath
          cases hid : isClaude spec.launchId with
          | true =>
              rw [assertCursorLaunch, hid, if_pos rfl] at h
              have hprovider : providerOf spec = "anthropic" := by simp [providerOf, hpath, hid]
              exact ⟨cfg.anthropic, by rw [hprovider, provider?_anthropic],
                anthropic_ungated hcfg ha h⟩
          | false =>
              have hprovider : providerOf spec = "cursor_grok_bot" := by
                simp [providerOf, hpath, hid]
              exact ⟨cfg.cursorGrokBot, by rw [hprovider, provider?_cursorGrokBot],
                cursor_ungated hcfg ha hid h⟩
        · split at h
          · rename_i hpath
            have hprovider : providerOf spec = "anthropic" := by simp [providerOf, hpath]
            exact ⟨cfg.anthropic, by rw [hprovider, provider?_anthropic],
              anthropic_ungated hcfg ha h⟩
          · split at h
            · rename_i hpath
              have hprovider : providerOf spec = "direct_xai" := by simp [providerOf, hpath]
              exact ⟨cfg.directXai, by rw [hprovider, provider?_directXai],
                directXai_ungated hcfg h⟩
            · cases h

/-! ## The planner and the gate agree -/

/-- Only a provider with roles or gated rows decides by its rows alone. -/
theorem consistent_of_decides (hcfg : cfg.Consistent) {policy : Provider}
    (hpolicy : cfg.provider? (providerOf spec) = some policy) (h : policy.Decides spec) :
    policy.Consistent ∧
      (ByPlan spec ∨ providerOf spec = "anthropic" ∧ policy = cfg.anthropic) := by
  have hroleless (hp : policy ∈ [cfg.cursorGrokBot, cfg.directXai])
      (hopenai : providerOf spec ≠ "openai") (hgoogle : providerOf spec ≠ "google") : False := by
    obtain ⟨hroles, hgated⟩ := hcfg.roleless policy hp
    rcases h with hrole | hrow | hprovider
    · obtain ⟨pin, hpin⟩ := Option.isSome_iff_exists.mp hrole
      have := (Provider.role?_some hpin).1
      simp [hroles] at this
    · simp [hgated] at hrow
    · exact hprovider.elim hopenai hgoogle
  have hbyPlan (hp : providerOf spec = "openai" ∨ providerOf spec = "google") : ByPlan spec := by
    rcases providerOf_cases spec with ⟨hanthropic, -⟩ | ⟨hpath, -⟩
    · simp [hanthropic] at hp
    · rwa [ByPlan, ← hpath]
  rcases provider?_some hpolicy with ⟨hp, rfl⟩ | ⟨hp, rfl⟩ | ⟨hp, rfl⟩ | ⟨hp, rfl⟩ | ⟨hp, rfl⟩
  · exact ⟨hcfg.anthropic, .inr ⟨hp, rfl⟩⟩
  · exact ⟨hcfg.openai, .inl (hbyPlan (.inl hp))⟩
  · exact ⟨hcfg.google, .inl (hbyPlan (.inr hp))⟩
  · exact absurd (hroleless (by simp) (by simp [hp]) (by simp [hp])) id
  · exact absurd (hroleless (by simp) (by simp [hp]) (by simp [hp])) id

/-- What the rows decide about is never the editor's automatic choice. -/
theorem named_of_decides {policy : Provider} (hc : policy.Consistent) (h : policy.Decides spec)
    {check : Except PolicyError Unit} (hplan : assertPlannable policy spec check = .ok ()) :
    spec.launchId ≠ "auto" ∧ spec.launchId ≠ "default" := by
  apply hc.named
  cases hrole : policy.role? spec.launchId with
  | some pin =>
      obtain ⟨hmem, hid, -⟩ := Provider.role?_some hrole
      simp only [List.cons_append, List.mem_cons, List.mem_append, List.mem_map]
      exact .inr (.inl ⟨pin, hmem, hid⟩)
  | none =>
      cases hrow : Entries.get? policy.gated spec.launchId with
      | some row =>
          have := List.mem_map_of_mem (f := Prod.fst) (Entries.mem_of_get? hrow)
          simp only [List.cons_append, List.mem_cons, List.mem_append]
          exact .inr (.inr this)
      | none =>
          have hprovider : providerOf spec = "openai" ∨ providerOf spec = "google" := by
            simpa [Provider.Decides, hrole, hrow] using h
          unfold assertPlannable at hplan
          simp only [hrole, hrow, hprovider, if_true, refuse, Except.check_eq_ok, not_not] at hplan
          simp [hplan.1]

/-- The gate's answer about a role of Anthropic's, or a model that it gates. -/
theorem assertPath_decided (hcfg : cfg.Consistent) (ha : a.proof = none)
    (hprovider : providerOf spec = "anthropic") (hbyPlan : ¬ByPlan spec)
    (hdecides : cfg.anthropic.Decides spec) {plan : LaunchPlan} :
    assertPath cfg spec a taskKind (.ok plan) = .ok () ↔
      ¬NeedsApproval cfg.anthropic spec taskKind "standard" := by
  have hpath : spec.path = "anthropic" ∨
      spec.path = "cursor_grok_bot" ∧ isClaude spec.launchId = true := by
    rcases providerOf_cases spec with ⟨-, h⟩ | ⟨h, -⟩
    · exact .inr h
    · exact .inl (h ▸ hprovider)
  by_cases hbyRole : ByRole cfg spec taskKind
  · rw [assertPath_byRole hbyPlan hbyRole]
    refine iff_of_true ⟨plan, rfl⟩ ?_
    rintro (hmode | ⟨hplanning, htask⟩ | ⟨hgated, hplanning⟩)
    · simp at hmode
    · rcases hbyRole.2 with hcontroller | ⟨-, htask'⟩
      · simp [(hcfg.anthropic.of_controller hcontroller).1] at hplanning
      · exact htask htask'
    · rcases hbyRole.2 with hcontroller | ⟨hplanning', -⟩
      · simp [(hcfg.anthropic.of_controller hcontroller).2] at hgated
      · simp [hplanning] at hplanning'
  · have hnot : ¬(cfg.anthropic.controller.any (·.launchId = spec.launchId) = true ∨
        cfg.anthropic.isPlanning spec.launchId = true ∧ taskKind = some "planning") :=
      fun h => hbyRole ⟨hpath.imp id And.left, h⟩
    rw [not_or, not_and] at hnot
    obtain ⟨hcontroller, hplanning⟩ := hnot
    have hneeds : NeedsApproval cfg.anthropic spec taskKind "standard" := by
      cases hp : cfg.anthropic.isPlanning spec.launchId with
      | true => exact .inr (.inl ⟨hp, hplanning hp⟩)
      | false =>
          refine .inr (.inr ⟨?_, hp⟩)
          have hrole : cfg.anthropic.role? spec.launchId = none :=
            Provider.role?_none.mpr ⟨hp, by simpa using hcontroller⟩
          simpa [Provider.Decides, hrole, hprovider] using hdecides
    have hgated : spec.launchId ∉ anthropicUngatedIds cfg := by
      apply hcfg.escalated
      rcases hneeds with hmode | ⟨hp, -⟩ | ⟨hrow, -⟩
      · simp at hmode
      · apply List.mem_append_left
        simpa [Provider.isPlanning, Option.any_eq_true] using hp
      · apply List.mem_append_right
        obtain ⟨row, hrow⟩ := Option.isSome_iff_exists.mp hrow
        exact List.mem_map_of_mem (Entries.mem_of_get? hrow)
    have hanthropic : assertAnthropicLaunch cfg spec a ≠ .ok () :=
      fun h => hgated ((assertAnthropicLaunch_none ha).mp h).2.1
    rw [assertPath_direct hbyPlan hbyRole]
    refine iff_of_false ?_ (not_not.mpr hneeds)
    rcases hpath with hpath | ⟨hpath, hclaude⟩
    · simpa [hpath] using hanthropic
    · rw [if_pos hpath, assertCursorLaunch, if_pos hclaude]
      exact hanthropic

/-- The gate refuses a launch without a proof exactly when its plan asks for an approval. -/
theorem allowed_iff_of_planned (hcfg : cfg.Consistent) (ha : a.proof = none) {plan : LaunchPlan}
    {n : ℕ} (m : ℕ) (h : planLaunch cfg spec taskKind "standard" (n + 2) = .ok plan) :
    assertLaunchAllowed cfg spec a taskKind (m + 2) = .ok () ↔
      plan.requiresHumanApproval = false := by
  rw [planLaunch] at h
  obtain ⟨hadmitted, hmode, policy, hpolicy, hplannable, hselect⟩ := planWith_ok.mp h
  have hhuman : plan.requiresHumanApproval = false ↔
      ¬NeedsApproval policy spec taskKind "standard" := by
    rcases selectPlan_ok hselect with ⟨hneeds, hhuman, -⟩ | ⟨hneeds, hhuman, -⟩
    · simp [hneeds, hhuman]
    · simp [hneeds, hhuman]
  rw [assertLaunchAllowed, assertWith_ok, hhuman]
  by_cases hdecides : policy.Decides spec
  · obtain ⟨hc, hbranch⟩ := consistent_of_decides hcfg hpolicy hdecides
    obtain ⟨hauto, hdefault⟩ := named_of_decides hc hdecides hplannable
    have hplan : planLaunch cfg spec taskKind "standard" (m + 1) = .ok plan := by
      rw [planLaunch, planWith_ok]
      refine ⟨hadmitted, hmode, policy, hpolicy, ?_, hselect⟩
      rwa [assertPlannable_congr hdecides _ (assertLaunchAllowed cfg spec {} none (n + 1))]
    have hpath : assertPath cfg spec a taskKind (.ok plan) = .ok () ↔
        ¬NeedsApproval policy spec taskKind "standard" := by
      by_cases hbyPlan : ByPlan spec
      · rw [assertPath_byPlan hbyPlan ha, ← hhuman]
        simp
      · obtain ⟨hprovider, rfl⟩ := hbranch.resolve_left hbyPlan
        exact assertPath_decided hcfg ha hprovider hbyPlan hdecides
    rw [hplan, hpath]
    simp [hadmitted, hauto, hdefault, checkPresented_none ha]
  · rw [assertPlannable_check hdecides, assertLaunchAllowed] at hplannable
    obtain ⟨-, hauto, -, hpath⟩ := assertWith_ok.mp hplannable
    have hundecided := hdecides
    simp only [Provider.Decides, not_or, Option.not_isSome_iff_eq_none] at hundecided
    obtain ⟨hrole, hgated, hopenai, hgoogle⟩ := hundecided
    have hbyPlan : ¬ByPlan spec := by
      rintro (hp | hp)
      · exact hopenai (by simp [providerOf, hp])
      · exact hgoogle (by simp [providerOf, hp])
    have hbyRole (taskKind : Option String) : ¬ByRole cfg spec taskKind := by
      intro hbyRole
      obtain ⟨hprovider, hsome⟩ := hbyRole.anthropic hcfg
      rw [hprovider, provider?_anthropic, Option.some.injEq] at hpolicy
      subst hpolicy
      simp [hrole] at hsome
    have hneeds : ¬NeedsApproval policy spec taskKind "standard" := by
      rintro (hmode | ⟨hplanning, -⟩ | ⟨hrow, -⟩)
      · simp at hmode
      · simp [(Provider.role?_none.mp hrole).1] at hplanning
      · simp [hgated] at hrow
    refine iff_of_true ⟨hadmitted, hauto, checkPresented_none ha spec, ?_⟩ hneeds
    exact (assertPath_direct_congr hbyPlan (hbyRole none) (hbyRole taskKind) rfl ha).mp hpath

/-! ## What a plan runs -/

theorem mem_harnessPaths {policy : Provider}
    (h : cfg.provider? (providerOf spec) = some policy) :
    (spec.path, providerOf spec) ∈ harnessPaths := by
  rcases providerOf_cases spec with ⟨hprovider, hpath, -⟩ | ⟨hpath, -⟩
  · simp [harnessPaths, hprovider, hpath]
  · rcases provider?_some h with ⟨hp, -⟩ | ⟨hp, -⟩ | ⟨hp, -⟩ | ⟨hp, -⟩ | ⟨hp, -⟩
    all_goals simp [harnessPaths, ← hpath, hp]

theorem mem_taskKinds (h : knownTaskKind taskKind = true) : taskKind ∈ taskKinds := by
  simpa [knownTaskKind, taskKinds, or_assoc] using h

/-- What a plan runs right away passes the gate without a proof. -/
theorem effective_allowed (hcfg : cfg.Consistent) (ha : a.proof = none) {mode : String}
    {plan : LaunchPlan} {n : ℕ} (m : ℕ)
    (h : planLaunch cfg spec taskKind mode (n + 2) = .ok plan) :
    assertLaunchAllowed cfg plan.effective a taskKind (m + 2) = .ok () := by
  have hplan := h
  rw [planLaunch] at hplan
  obtain ⟨hadmitted, hmode, policy, hpolicy, hplannable, hselect⟩ := planWith_ok.mp hplan
  rcases selectPlan_ok hselect with ⟨-, -, fallback, hfallback, heffective⟩ |
    ⟨hneeds, hhuman, heffective⟩
  · have hdefault := hcfg.fallback _ (mem_harnessPaths hpolicy) _ (mem_taskKinds hadmitted.taskKind)
    obtain ⟨fallback', hfallback', hplanned⟩ := Except.bind_eq_ok.mp hdefault
    rw [hfallback, Except.ok.injEq] at hfallback'
    subst hfallback'
    obtain ⟨plan', hplan', hhuman⟩ := Except.bind_eq_ok.mp hplanned
    rw [heffective]
    exact (allowed_iff_of_planned hcfg ha m hplan').mpr (Except.ok.inj hhuman)
  · obtain rfl : mode = "standard" := hmode.resolve_right fun hmode => hneeds (.inl hmode)
    rw [heffective]
    exact (allowed_iff_of_planned hcfg ha m h).mpr hhuman

/-! ## The checked-in pins -/

/-- The launch names an ungated row of its path. -/
def NamesUngated (cfg : Config) (spec : LaunchSpec) (taskKind : Option String) : Prop :=
  ∃ policy, cfg.provider? (providerOf spec) = some policy ∧
    ∃ pin ∈ policy.ungated taskKind, pin.Permits spec

/-- Default-deny, and the planner agrees with the gate. -/
theorem governance_defaultDeny (spec : LaunchSpec) (taskKind : Option String) (a : Approval)
    (n m : ℕ) :
    (a.proof = none → assertLaunchAllowed checkedIn spec a taskKind n = .ok () →
      NamesUngated checkedIn spec taskKind) ∧
    (a.proof = none → ∀ plan, planLaunch checkedIn spec taskKind "standard" (n + 2) = .ok plan →
      (assertLaunchAllowed checkedIn spec a taskKind (m + 2) = .ok () ↔
        plan.requiresHumanApproval = false)) ∧
    (a.proof = none → ∀ mode plan, planLaunch checkedIn spec taskKind mode (n + 2) = .ok plan →
      assertLaunchAllowed checkedIn plan.effective a taskKind (m + 2) = .ok ()) ∧
    (∀ proof, a.proof = some proof → ¬Covers spec a proof →
      assertLaunchAllowed checkedIn spec a taskKind n ≠ .ok ()) := by
  refine ⟨fun ha h => ?_, fun ha plan h => ?_, fun ha mode plan h => ?_, fun proof hp hcovers h => ?_⟩
  · exact ungated_of_allowed checkedIn_consistent ha h
  · exact allowed_iff_of_planned checkedIn_consistent ha m h
  · exact effective_allowed checkedIn_consistent ha m h
  · exact hcovers (covers_of_allowed hp h)

def opusPlanning : LaunchSpec where
  path := "anthropic"
  launchId := "claude-opus-5-5"
  effort := some "high"
  fast := some false

/-- Opus plans without a proof, and executes with one only. -/
theorem governance_opus :
    NamesUngated checkedIn opusPlanning (some "planning") ∧
      assertLaunchAllowed checkedIn opusPlanning {} (some "execution") 2 ≠ .ok () :=
  ⟨(governance_defaultDeny opusPlanning (some "planning") {} 2 0).1 rfl (by decide +kernel),
    by decide +kernel⟩

end Perpetua.Governance

import Perpetua.Governance.Policy

/-!
# The checks of a launch

What a proof that is accepted covers, what a launch that passes a check satisfies, and which launches
pass without a proof.
-/

namespace Perpetua.Governance

/-! ## Tokens -/

/-- The proof covers the launch, and is fresh and of an allowed kind. -/
structure Covers (spec : LaunchSpec) (a : Approval) (proof : EscalationProof) : Prop where
  kind : proof.kind ∈ allowedProofKinds
  model : proof.modelId = spec.launchId
  effort : proof.effort = namedEffort spec
  fast : proof.fast = some true ↔ spec.fast = some true
  path : proof.path = none ∨ proof.path = some spec.path
  scope : proof.scope = a.approvalScope
  unexpired : a.clock.instant < proof.expiresAt.instant

theorem proofIsToken_true {a : Approval} (h : proofIsToken a = .ok true) :
    ∃ proof, a.proof = some proof ∧ proof.kind ∈ allowedProofKinds ∧
      a.clock.instant < proof.expiresAt.instant := by
  unfold proofIsToken at h
  cases hp : a.proof with
  | none => simp [hp] at h
  | some proof =>
      simp only [hp] at h
      split at h
      · cases h
      split at h
      · cases h
      rename_i hkind
      split at h
      · cases h
      split at h
      · cases h
      split at h
      · cases h
      split at h
      · cases h
      rename_i hexpiry
      exact ⟨proof, rfl, not_not.mp hkind, by omega⟩

theorem tokenCovers_true {spec : LaunchSpec} {a : Approval} (h : tokenCovers spec a = .ok true) :
    ∃ proof, a.proof = some proof ∧ Covers spec a proof := by
  obtain ⟨fresh, hfresh, h⟩ := Except.bind_eq_ok.mp h
  cases fresh with
  | false => cases h
  | true =>
      obtain ⟨proof, hp, hkind, hexpiry⟩ := proofIsToken_true hfresh
      rw [hp] at h
      have h := Except.ok.inj h
      simp only [Bool.and_eq_true, decide_eq_true_eq, Bool.or_eq_true, beq_iff_eq] at h
      obtain ⟨⟨⟨⟨hmodel, heffort⟩, hfast⟩, hpath⟩, hscope⟩ := h
      refine ⟨proof, hp, hkind, hmodel, heffort, ?_, hpath, hscope, hexpiry⟩
      rw [← beq_iff_eq, hfast, beq_iff_eq]

/-- Without a proof nothing is covered. -/
theorem tokenCovers_none (spec : LaunchSpec) {a : Approval} (h : a.proof = none) :
    tokenCovers spec a = .ok false := by
  simp only [tokenCovers, proofIsToken, h]
  rfl

theorem requireToken_ok {spec : LaunchSpec} {a : Approval} {message : String} :
    requireToken spec a message = .ok () ↔ tokenCovers spec a = .ok true := by
  constructor
  · intro h
    obtain ⟨covered, hcovered, h⟩ := Except.bind_eq_ok.mp h
    cases covered with
    | true => exact hcovered
    | false => cases h
  · intro h
    rw [requireToken, h]
    rfl

theorem requireToken_none (spec : LaunchSpec) {a : Approval} (h : a.proof = none)
    (message : String) : requireToken spec a message ≠ .ok () := by
  rw [ne_eq, requireToken_ok, tokenCovers_none spec h]
  simp

/-! ## Common checks -/

/-- What every entry point checks first. -/
structure Admitted (cfg : Config) (spec : LaunchSpec) (taskKind : Option String) : Prop where
  taskKind : knownTaskKind taskKind = true
  effort : forbiddenEffort? spec = none
  aliases : effortsConflict spec = false
  listed : spec.launchId ∉ cfg.bannedLaunchIds

theorem assertWith_ok {cfg : Config} {spec : LaunchSpec} {a : Approval} {taskKind : Option String}
    {plan : Except PolicyError LaunchPlan} :
    assertWith cfg spec a taskKind plan = .ok () ↔
      Admitted cfg spec taskKind ∧
        ¬((spec.launchId = "auto" ∨ spec.launchId = "default") ∧ spec.agent = true) ∧
          checkPresented spec a = .ok () ∧ assertPath cfg spec a taskKind plan = .ok () := by
  unfold assertWith
  rw [refuse, Except.check_eq_ok]
  constructor
  · rintro ⟨htask, h⟩
    cases hforbidden : forbiddenEffort? spec with
    | some effort => simp [hforbidden, refuse] at h
    | none =>
        simp only [hforbidden, refuse, Except.check_eq_ok] at h
        obtain ⟨haliases, hbanned, hauto, h⟩ := h
        obtain ⟨u, hpresented, h⟩ := Except.bind_eq_ok.mp h
        exact ⟨⟨by simpa using htask, hforbidden, by simpa using haliases, hbanned⟩, hauto,
          hpresented, h⟩
  · rintro ⟨⟨htask, hforbidden, haliases, hbanned⟩, hauto, hpresented, h⟩
    refine ⟨by simp [htask], ?_⟩
    simp only [hforbidden, refuse, Except.check_eq_ok, haliases]
    exact ⟨by simp, hbanned, hauto, Except.bind_eq_ok.mpr ⟨(), hpresented, h⟩⟩

theorem planWith_ok {cfg : Config} {spec : LaunchSpec} {taskKind : Option String} {mode : String}
    {check : Except PolicyError Unit} {plan : LaunchPlan} :
    planWith cfg spec taskKind mode check = .ok plan ↔
      Admitted cfg spec taskKind ∧ (mode = "standard" ∨ mode = "ultracode") ∧
        ∃ policy, cfg.provider? (providerOf spec) = some policy ∧
          assertPlannable policy spec check = .ok () ∧
            selectPlan cfg policy spec taskKind mode = .ok plan := by
  unfold planWith
  rw [refuse, Except.check_eq_ok, refuse, Except.check_eq_ok]
  constructor
  · rintro ⟨htask, hmode, h⟩
    cases hforbidden : forbiddenEffort? spec with
    | some effort => simp [hforbidden, refuse] at h
    | none =>
        simp only [hforbidden, refuse, Except.check_eq_ok] at h
        obtain ⟨haliases, hbanned, h⟩ := h
        cases hpolicy : cfg.provider? (providerOf spec) with
        | none => simp [hpolicy] at h
        | some policy =>
            simp only [hpolicy] at h
            obtain ⟨u, hplannable, h⟩ := Except.bind_eq_ok.mp h
            refine ⟨⟨by simpa using htask, hforbidden, by simpa using haliases, hbanned⟩, ?_,
              policy, rfl, hplannable, h⟩
            by_contra hboth
            exact hmode (not_or.mp hboth)
  · rintro ⟨⟨htask, hforbidden, haliases, hbanned⟩, hmode, policy, hpolicy, hplannable, h⟩
    refine ⟨by simp [htask], ?_, ?_⟩
    · rintro ⟨h1, h2⟩
      exact hmode.elim h1 h2
    · simp only [hforbidden, refuse, Except.check_eq_ok, haliases, hpolicy]
      exact ⟨by simp, hbanned, Except.bind_eq_ok.mpr ⟨(), hplannable, h⟩⟩

theorem covers_of_allowed {cfg : Config} {spec : LaunchSpec} {a : Approval}
    {taskKind : Option String} {depth : ℕ} {proof : EscalationProof} (hp : a.proof = some proof)
    (h : assertLaunchAllowed cfg spec a taskKind depth = .ok ()) : Covers spec a proof := by
  cases depth with
  | zero => cases h
  | succ depth =>
      rw [assertLaunchAllowed] at h
      obtain ⟨-, -, hpresented, -⟩ := assertWith_ok.mp h
      rw [checkPresented, hp, Option.isSome_some, if_pos rfl, requireToken_ok] at hpresented
      obtain ⟨proof', hp', hcovers⟩ := tokenCovers_true hpresented
      rw [hp, Option.some.injEq] at hp'
      exact hp' ▸ hcovers

/-! ## Parameters of a row -/

theorem assertGatedParams_ok {spec : LaunchSpec} {row : Row} :
    assertGatedParams spec row = .ok () ↔
      (∀ wanted, row.effort = some wanted →
        namedEffort spec ∈ (row.allowedEfforts.getD [wanted]).map some) ∧
      ∀ fast, row.fast = some fast → spec.fast = some fast := by
  have hfast : assertGatedParams.fastMatches spec row = .ok () ↔
      ∀ fast, row.fast = some fast → spec.fast = some fast := by
    unfold assertGatedParams.fastMatches
    cases row.fast with
    | none => simp
    | some fast =>
        simp only [refuse, Except.check_eq_ok, and_true, not_not]
        constructor
        · rintro h fast' ⟨⟩
          exact h
        · exact fun h => h fast rfl
  unfold assertGatedParams
  cases row.effort with
  | none => simp [hfast]
  | some wanted =>
      simp only [refuse, Except.check_eq_ok, not_not, hfast]
      constructor
      · rintro ⟨h, hf⟩
        refine ⟨?_, hf⟩
        rintro wanted' ⟨⟩
        exact h
      · exact fun h => ⟨h.1 wanted rfl, h.2⟩

/-! ## Without a proof -/

section

variable {cfg : Config} {spec : LaunchSpec} {a : Approval} (h : a.proof = none)

include h

theorem checkPresented_none (spec : LaunchSpec) : checkPresented spec a = .ok () := by
  rw [checkPresented, h]
  rfl

theorem assertAnthropicLaunch_none :
    assertAnthropicLaunch cfg spec a = .ok () ↔
      spec.fast ≠ some true ∧ spec.launchId ∈ anthropicUngatedIds cfg ∧
        namedEffort spec = some "medium" := by
  unfold assertAnthropicLaunch
  rw [refuse, Except.check_eq_ok]
  refine and_congr_right fun _ => ?_
  by_cases hid : spec.launchId ∈ anthropicUngatedIds cfg
  · simp [hid, refuse]
  · rw [if_neg hid]
    simp only [hid, false_and, iff_false]
    cases Entries.get? cfg.anthropic.gated spec.launchId with
    | none => simp [refuse]
    | some row =>
        intro hrun
        obtain ⟨u, htoken, -⟩ := Except.bind_eq_ok.mp hrun
        exact requireToken_none spec h _ htoken

theorem assertCursorLaunch_none (hid : isClaude spec.launchId = false) :
    assertCursorLaunch cfg spec a = .ok () ↔
      (spec.launchId = cfg.cursorGrokBot.default.launchId ∧
        assertGatedParams spec cfg.cursorGrokBot.default.toRow = .ok ()) ∨
      (spec.launchId ≠ cfg.cursorGrokBot.default.launchId ∧ spec.fast ≠ some true ∧
        (namedEffort spec = none ∨ namedEffort spec = some "medium") ∧
        ∃ pin, ungatedCursorRow cfg spec.launchId = some pin ∧
          assertGatedParams spec pin.toRow = .ok ()) := by
  unfold assertCursorLaunch
  rw [hid, if_neg Bool.false_ne_true]
  by_cases hdefault : spec.launchId = cfg.cursorGrokBot.default.launchId
  · simp [hdefault]
  rw [if_neg hdefault]
  simp only [hdefault, false_and, false_or, ne_eq, not_false_eq_true, true_and]
  by_cases hfast : spec.fast = some true
  · simp only [hfast, if_true, not_true, false_and, iff_false]
    split
    · exact requireToken_none spec h _
    · simp [refuse]
  rw [if_neg hfast]
  simp only [hfast, not_false_eq_true, true_and]
  by_cases heffort : namedEffort spec ≠ none ∧ namedEffort spec ≠ some "medium"
  · rw [if_pos heffort]
    constructor
    · intro hrun
      obtain ⟨u, htoken, -⟩ := Except.bind_eq_ok.mp hrun
      exact absurd htoken (requireToken_none spec h _)
    · rintro ⟨hmedium, -⟩
      exact absurd heffort (not_and_or.mpr (by simpa using hmedium))
  rw [if_neg heffort]
  have hmedium : namedEffort spec = none ∨ namedEffort spec = some "medium" :=
    (not_and_or.mp heffort).imp not_not.mp not_not.mp
  simp only [hmedium, true_and]
  cases hrow : ungatedCursorRow cfg spec.launchId with
  | some pin =>
      change assertGatedParams spec pin.toRow = .ok () ↔ _
      simp
  | none =>
      simp only [reduceCtorEq, false_and, exists_false, iff_false]
      intro hrun
      obtain ⟨u, -, hrun⟩ := Except.bind_eq_ok.mp hrun
      cases hgated : Entries.get? cfg.cursorGrokBot.gated spec.launchId with
      | some row =>
          rw [hgated] at hrun
          obtain ⟨u, htoken, -⟩ := Except.bind_eq_ok.mp hrun
          exact requireToken_none spec h _ htoken
      | none =>
          rw [hgated] at hrun
          exact requireToken_none spec h _ hrun

end

theorem assertDirectXaiLaunch_ok {cfg : Config} {spec : LaunchSpec} :
    assertDirectXaiLaunch cfg spec = .ok () ↔
      spec.launchId = cfg.directXai.default.launchId ∧ spec.fast ≠ some true ∧
        ∃ wanted, cfg.directXai.default.reasoningEffort = some wanted ∧
          namedEffort spec = some wanted := by
  unfold assertDirectXaiLaunch
  rw [refuse, Except.check_eq_ok, not_not]
  refine and_congr_right fun _ => ?_
  cases cfg.directXai.default.reasoningEffort with
  | none =>
      simp only [reduceCtorEq, false_and, exists_false, and_false, iff_false]
      exact nofun
  | some wanted =>
      change (if namedEffort spec ≠ some wanted then _ else _) = _ ↔ _
      rw [refuse, Except.check_eq_ok, refuse, Except.check_eq_ok, not_not]
      constructor
      · rintro ⟨heffort, hfast, -⟩
        exact ⟨hfast, wanted, rfl, heffort⟩
      · rintro ⟨hfast, wanted', ⟨⟩, heffort⟩
        exact ⟨heffort, hfast, rfl⟩

end Perpetua.Governance

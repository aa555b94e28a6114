import Perpetua.Gate.Router

/-!
# Routes of the frugality router

What a route has passed, that a policy error comes with a text, and what the gate makes of both.
-/

namespace Perpetua.Gate

open Pipeline

/-! ## The policy -/

/-- The override is confirmed and its reason is not blank. -/
def Request.Confirmed (r : Request) : Prop :=
  r.overrideConfirmed = true ∧
    ∃ reason, r.overrideReason = some reason ∧ ∃ c ∈ reason.toList, PyText.isSpace c = false

/-- The tiers that the flags of a request allow. -/
def Request.Allows (r : Request) (tier : ℤ) : Prop :=
  (r.offline = true → tier < 3) ∧ (r.privacyCritical = true → 4 ≤ tier → r.Confirmed)

theorem hasOverride_iff {r : Request} : r.hasOverride = true ↔ r.Confirmed := by
  rw [Request.hasOverride, Request.Confirmed, Bool.and_eq_true, Option.any_eq_true_iff_get]
  constructor
  · rintro ⟨hc, h⟩
    obtain ⟨hsome, hb⟩ := h
    refine ⟨hc, _, (Option.some_get hsome).symm, PyText.blank_eq_false_iff.mp ?_⟩
    simpa using hb
  · rintro ⟨hc, reason, hr, hreason⟩
    refine ⟨hc, by rw [hr]; rfl, ?_⟩
    simpa [hr] using PyText.blank_eq_false_iff.mpr hreason

theorem maxAllowedTier_allows {r : Request} {tier : ℤ} (h : tier ≤ maxAllowedTier r) :
    r.Allows tier := by
  unfold maxAllowedTier at h
  split_ifs at h with ho hp
  · exact ⟨fun _ => by omega, fun _ h4 => by omega⟩
  · exact ⟨fun h' => absurd h' ho, fun _ h4 => by omega⟩
  · exact ⟨fun h' => absurd h' ho, fun h' => absurd h' hp⟩

theorem ceilingFor_allows {r : Request} {tier : ℤ} (h : tier ≤ ceilingFor r) : r.Allows tier := by
  unfold ceilingFor at h
  split_ifs at h with hc
  · simp only [Bool.and_eq_true, Bool.not_eq_true'] at hc
    obtain ⟨⟨-, hover⟩, honline⟩ := hc
    exact ⟨fun h' => by simp [honline] at h', fun _ _ => hasOverride_iff.mp hover⟩
  · exact maxAllowedTier_allows h

theorem overrideRequiredReason_ne_empty (tier ceiling : ℤ) (offline : Bool) :
    overrideRequiredReason tier ceiling offline ≠ "" := by
  unfold overrideRequiredReason
  split_ifs <;> simp

/-! ## The router -/

/-- A policy error says why. -/
def Raised.Explained : Raised → Prop
  | .frugalityPolicyError message => message ≠ ""
  | _ => True

theorem enforceTierPolicy_ok {w : Surroundings} {tier : ℤ} {spec : ToolCallSpec} {u : Unit} :
    enforceTierPolicy w tier spec = .ok u ↔
      ¬(w.offline = true ∧ 3 ≤ tier) ∧ ¬(spec.privacyCritical = true ∧ 4 ≤ tier) := by
  rw [enforceTierPolicy, Except.check_eq_ok, Except.check_eq_ok]
  simp

theorem enforceTierPolicy_explained {w : Surroundings} {tier : ℤ} {spec : ToolCallSpec} {e : Raised}
    (h : enforceTierPolicy w tier spec = .error e) : e.Explained := by
  unfold enforceTierPolicy at h
  split_ifs at h
  · cases h
    simp [Raised.Explained]
  · cases h
    simp [Raised.Explained]

theorem emitTrace_ok {w : Surroundings} {u : Unit} (h : emitTrace w = .ok u) :
    w.traceFault = none := by
  unfold emitTrace at h
  cases hf : w.traceFault with
  | none => rfl
  | some fault => simp [hf] at h

theorem emitTrace_explained {w : Surroundings} {e : Raised} (h : emitTrace w = .error e) :
    e.Explained := by
  unfold emitTrace at h
  cases hf : w.traceFault with
  | none => simp [hf] at h
  | some fault =>
      simp only [hf, Except.error.injEq] at h
      rw [← h]
      trivial

theorem firstRoute_ok {w : Surroundings} {spec : ToolCallSpec} {route : ResolvedRoute}
    {probes : List (ℤ × Except Raised (Option ResolvedRoute))}
    (h : firstRoute w spec probes = .ok (some route)) :
    (∃ tier, (tier, .ok (some route)) ∈ probes) ∧ enforceTierPolicy w route.tier spec = .ok () ∧
      w.traceFault = none := by
  induction probes with
  | nil => cases h
  | cons p probes ih =>
      obtain ⟨tier, probe⟩ := p
      have hrest : firstRoute w spec probes = .ok (some route) →
          (∃ t, (t, .ok (some route)) ∈ (tier, probe) :: probes) ∧
            enforceTierPolicy w route.tier spec = .ok () ∧ w.traceFault = none := by
        intro h'
        obtain ⟨⟨t, ht⟩, hpassed⟩ := ih h'
        exact ⟨⟨t, List.mem_cons_of_mem _ ht⟩, hpassed⟩
      unfold firstRoute at h
      split_ifs at h
      · exact hrest h
      · cases probe with
        | error e => cases h
        | ok found =>
            cases found with
            | none => exact hrest h
            | some r =>
                obtain ⟨u, henforced, htrace⟩ := Except.bind_eq_ok.mp h
                obtain ⟨u', htraced, hr⟩ := Except.bind_eq_ok.mp htrace
                cases hr
                exact ⟨⟨tier, List.mem_cons_self⟩, henforced, emitTrace_ok htraced⟩

/-- Tier 0 is always allowed, and its probe comes first. -/
theorem firstRoute_inContext {w : Surroundings} {spec : ToolCallSpec} {route : ResolvedRoute}
    {probes : List (ℤ × Except Raised (Option ResolvedRoute))}
    (hcontext : spec.taskType = "in_context")
    (h : firstRoute w spec ((0, .ok (probeTier0 spec)) :: probes) = .ok (some route)) :
    route.tier = 0 := by
  have hprobe : probeTier0 spec = some { tier := 0, backend := some "in_context" } := by
    simp [probeTier0, hcontext]
  have hallowed : ¬maxAllowedTier (spec.request w) < 0 := by
    unfold maxAllowedTier
    split_ifs <;> omega
  unfold firstRoute at h
  rw [if_neg hallowed, hprobe] at h
  obtain ⟨u, -, h⟩ := Except.bind_eq_ok.mp h
  obtain ⟨u', -, h⟩ := Except.bind_eq_ok.mp h
  cases h
  rfl

theorem firstRoute_explained {w : Surroundings} {spec : ToolCallSpec} {e : Raised}
    {probes : List (ℤ × Except Raised (Option ResolvedRoute))}
    (hprobes : ∀ p ∈ probes, ∀ e', p.2 = .error e' → e'.Explained)
    (h : firstRoute w spec probes = .error e) : e.Explained := by
  induction probes with
  | nil => cases h
  | cons p probes ih =>
      obtain ⟨tier, probe⟩ := p
      have hrest := ih fun p hp => hprobes p (List.mem_cons_of_mem _ hp)
      unfold firstRoute at h
      split_ifs at h
      · exact hrest h
      · cases probe with
        | error e' =>
            cases h
            exact hprobes _ List.mem_cons_self _ rfl
        | ok found =>
            cases found with
            | none => exact hrest h
            | some r =>
                rcases Except.bind_eq_error.mp h with h | ⟨u, -, h⟩
                · exact enforceTierPolicy_explained h
                · rcases Except.bind_eq_error.mp h with h | ⟨u', -, h⟩
                  · exact emitTrace_explained h
                  · cases h

theorem escalationRoute_ok {w : Surroundings} {spec : ToolCallSpec} {tier : ℤ}
    {route : ResolvedRoute} (h : escalationRoute w spec tier = .ok route) :
    route.tier = tier ∧ enforceTierPolicy w tier spec = .ok () := by
  obtain ⟨-, h⟩ := Except.check_eq_ok.mp h
  obtain ⟨u, henforced, hroute⟩ := Except.bind_eq_ok.mp h
  cases hroute
  exact ⟨rfl, henforced⟩

theorem escalationRoute_explained {w : Surroundings} {spec : ToolCallSpec} {tier : ℤ} {e : Raised}
    (h : escalationRoute w spec tier = .error e) : e.Explained := by
  unfold escalationRoute at h
  split at h
  · cases h
    simp [Raised.Explained]
  · rcases Except.bind_eq_error.mp h with h | ⟨u, -, h⟩
    · exact enforceTierPolicy_explained h
    · cases h

/-! ## Decisions -/

/-- A refusal with its reason. -/
def GateDecision.Refuses (d : GateDecision) : Prop :=
  d.hasRoute = false ∧ d.route = none ∧ ∃ reason, d.deniedReason = some reason ∧ reason ≠ ""

def GateDecision.Grants (d : GateDecision) (route : ResolvedRoute) : Prop :=
  d = { hasRoute := true, route := some route }

theorem decided_ok {x : Except Raised ResolvedRoute} {d : GateDecision}
    (hx : ∀ e, x = .error e → e.Explained) (h : decided x = .ok d) :
    d.Refuses ∨ ∃ route, x = .ok route ∧ d.Grants route := by
  cases x with
  | ok route =>
      cases h
      exact .inr ⟨route, rfl, rfl⟩
  | error e =>
      have he := hx e rfl
      cases e with
      | frugalityPolicyError message =>
          cases h
          exact .inl ⟨rfl, rfl, message, rfl, he⟩
      | endpoint e => cases h
      | uncaught what => cases h

theorem consultByKnownTier_cases (r : Request) (tier : ℤ) (modelHint : Option String) :
    (consultByKnownTier r tier modelHint).Refuses ∨
      (consultByKnownTier r tier modelHint).Grants { tier := tier, model := modelHint } ∧
        r.Allows tier := by
  unfold consultByKnownTier
  split
  · exact .inl ⟨rfl, rfl, _, rfl, overrideRequiredReason_ne_empty _ _ _⟩
  · rename_i h
    exact .inr ⟨rfl, ceilingFor_allows (by omega)⟩

section Router

variable [PyRuntime] [UrlParser] [IpAddresses]

/-- The base URL of the backend passes `validate_model_endpoint_url(allow_public=False)`. -/
def Backend.Local (backend : Backend) : Prop :=
  ∃ url normalized, backend.baseUrl = some url ∧
    validateModelEndpointUrl url false = .ok normalized

theorem not_validated_empty {allowPublic : Bool} {normalized : String} :
    validateModelEndpointUrl "" allowPublic ≠ .ok normalized := by
  have : (PyText.strip "" == "") = true := by decide
  simp [validateModelEndpointUrl, this]

theorem validateTier1LocalBackend_ok {w : Surroundings} {spec : ToolCallSpec} {backend : Backend}
    {u : Unit} :
    validateTier1LocalBackend w spec backend = .ok u ↔
      (w.offline = true ∨ spec.privacyCritical = true → backend.Local) := by
  unfold validateTier1LocalBackend Backend.Local
  by_cases hr : w.offline = true ∨ spec.privacyCritical = true
  · simp only [hr, if_true, true_imp_iff]
    split
    · rename_i hb
      simp [hb]
    · rename_i hb
      simp [hb, not_validated_empty]
    · rename_i url _ hb
      cases hv : validateModelEndpointUrl url false with
      | ok n => simp [hb, hv]
      | error e => cases e <;> simp [hb, hv]
  · rw [if_neg hr]
    exact ⟨fun _ h => absurd h hr, fun _ => rfl⟩

theorem validateTier1LocalBackend_explained {w : Surroundings} {spec : ToolCallSpec}
    {backend : Backend} {e : Raised} (h : validateTier1LocalBackend w spec backend = .error e) :
    e.Explained := by
  unfold validateTier1LocalBackend at h
  by_cases hr : w.offline = true ∨ spec.privacyCritical = true
  · rw [if_pos hr] at h
    split at h
    · cases h
      simp [Raised.Explained]
    · cases h
      simp [Raised.Explained]
    · split at h
      · cases h
      · cases h
        simp [Raised.Explained]
      · cases h
        trivial
  · rw [if_neg hr] at h
    cases h

/-- A tier-1 route names the backend that the registry resolved, and a restricted call has had it
checked. -/
structure ProbedBackend (w : Surroundings) (spec : ToolCallSpec) (registry : Option Registry)
    (route : ResolvedRoute) : Prop where
  installed : w.resolverInstalled = true
  resolved : ∃ resolve backend, registry = some resolve ∧
    resolve spec.launchSpec = .ok backend ∧ route.backend = some backend.name ∧
      (w.offline = true ∨ spec.privacyCritical = true → backend.Local)

theorem probeTier1_ok {w : Surroundings} {spec : ToolCallSpec} {registry : Option Registry}
    {route : ResolvedRoute} (h : probeTier1 w spec registry = .ok (some route)) :
    route.tier = 1 ∧ ProbedBackend w spec registry route := by
  unfold probeTier1 at h
  cases registry with
  | none => cases h
  | some resolve =>
      simp only at h
      split_ifs at h with hinstalled
      · cases hb : resolve spec.launchSpec with
        | error e => cases e <;> simp [hb] at h
        | ok backend =>
            simp only [hb] at h
            obtain ⟨u, hv, hroute⟩ := Except.bind_eq_ok.mp h
            cases hroute
            exact ⟨rfl, hinstalled, resolve, backend, rfl, hb, rfl,
              validateTier1LocalBackend_ok.mp hv⟩
      · cases h

theorem probeTier1_explained {w : Surroundings} {spec : ToolCallSpec} {registry : Option Registry}
    {e : Raised} (h : probeTier1 w spec registry = .error e) : e.Explained := by
  unfold probeTier1 at h
  cases registry with
  | none => cases h
  | some resolve =>
      simp only at h
      split_ifs at h
      cases hb : resolve spec.launchSpec with
      | error e' =>
          cases e' with
          | policyUnavailable => simp [hb] at h
          | uncaught what =>
              simp only [hb, Except.error.injEq] at h
              rw [← h]
              trivial
      | ok backend =>
          simp only [hb] at h
          rcases Except.bind_eq_error.mp h with hv | ⟨u, -, hroute⟩
          · exact validateTier1LocalBackend_explained hv
          · cases hroute

/-- What a route of the router has passed. -/
structure Routed (w : Surroundings) (spec : ToolCallSpec) (registry : Option Registry)
    (route : ResolvedRoute) : Prop where
  enforced : enforceTierPolicy w route.tier spec = .ok ()
  traced : w.traceFault = none
  outOfContext : route.tier = 1 → spec.taskType ≠ "in_context"
  probed : route.tier = 1 → ProbedBackend w spec registry route

theorem resolveRoute_ok {w : Surroundings} {spec : ToolCallSpec} {registry : Option Registry}
    {escalationTier : Option ℤ} {route : ResolvedRoute}
    (h : resolveRoute w spec registry escalationTier = .ok route) :
    Routed w spec registry route := by
  obtain ⟨probed, hprobed, h⟩ := Except.bind_eq_ok.mp h
  cases probed with
  | some r =>
      cases h
      obtain ⟨⟨tier, hmem⟩, henforced, htraced⟩ := firstRoute_ok hprobed
      refine ⟨henforced, htraced, fun h1 hcontext => ?_, fun h1 => ?_⟩
      · have := firstRoute_inContext hcontext hprobed
        omega
      simp only [List.mem_cons, Prod.mk.injEq, Except.ok.injEq, List.not_mem_nil, or_false] at hmem
      rcases hmem with ⟨-, hm⟩ | ⟨-, hm⟩ | ⟨-, hm⟩
      · unfold probeTier0 at hm
        split at hm
        · cases hm
          cases h1
        · cases hm
      · exact (probeTier1_ok hm.symm).2
      · unfold probeTier2 at hm
        split at hm
        · cases hm
          cases h1
        · cases hm
  | none =>
      obtain ⟨htarget, h⟩ := Except.check_eq_ok.mp h
      obtain ⟨u, -, h⟩ := Except.bind_eq_ok.mp h
      obtain ⟨r, hr, h⟩ := Except.bind_eq_ok.mp h
      obtain ⟨u', htraced, h⟩ := Except.bind_eq_ok.mp h
      cases h
      obtain ⟨htier, henforced⟩ := escalationRoute_ok hr
      exact ⟨htier ▸ henforced, emitTrace_ok htraced, fun h1 => by omega, fun h1 => by omega⟩

theorem resolveRoute_explained {w : Surroundings} {spec : ToolCallSpec}
    {registry : Option Registry} {escalationTier : Option ℤ} {e : Raised}
    (h : resolveRoute w spec registry escalationTier = .error e) : e.Explained := by
  rcases Except.bind_eq_error.mp h with h | ⟨probed, -, h⟩
  · refine firstRoute_explained ?_ h
    simp only [List.mem_cons, List.not_mem_nil, or_false]
    rintro p (rfl | rfl | rfl) e' he
    · cases he
    · exact probeTier1_explained he
    · cases he
  · cases probed with
    | some r => cases h
    | none =>
        simp only at h
        split_ifs at h
        · cases h
          simp [Raised.Explained]
        · rcases Except.bind_eq_error.mp h with h | ⟨u, -, h⟩
          · exact enforceTierPolicy_explained h
          · rcases Except.bind_eq_error.mp h with h | ⟨r, -, h⟩
            · exact escalationRoute_explained h
            · rcases Except.bind_eq_error.mp h with h | ⟨u', -, h⟩
              · exact emitTrace_explained h
              · cases h

/-! ## Consultations -/

/-- The spec a route is resolved for: the call's own, or the relaxed one of a confirmed override. -/
def Call.Resolving (w : Surroundings) (c : Call) (spec : ToolCallSpec) : Prop :=
  spec = c.spec ∨
    spec = c.relaxedSpec ∧ w.offline = false ∧ (c.request w).Confirmed ∧
      c.escalationPastCeiling w ≠ none

theorem consultByResolveRoute_ok {w : Surroundings} {c : Call} {d : GateDecision}
    (h : consultByResolveRoute w c = .ok d) :
    d.Refuses ∨ ∃ spec route, d.Grants route ∧ Routed w spec c.registry route ∧
      c.Resolving w spec := by
  have hdecided : ∀ spec, c.Resolving w spec →
      decided (resolveRoute w spec c.registry c.escalationTier) = .ok d →
      d.Refuses ∨ ∃ spec route, d.Grants route ∧ Routed w spec c.registry route ∧
        c.Resolving w spec := by
    intro spec hspec h
    rcases decided_ok (fun _ => resolveRoute_explained) h with h | ⟨route, hroute, hgrants⟩
    · exact .inl h
    · exact .inr ⟨spec, route, hgrants, resolveRoute_ok hroute, hspec⟩
  unfold consultByResolveRoute at h
  cases hpast : c.escalationPastCeiling w with
  | none =>
      rw [hpast] at h
      exact hdecided c.spec (.inl rfl) h
  | some tier =>
      simp only [hpast] at h
      split at h
      · cases h
        exact .inl ⟨rfl, rfl, _, rfl, overrideRequiredReason_ne_empty _ _ _⟩
      · rename_i hover
        split at h
        · cases h
          exact .inl ⟨rfl, rfl, _, rfl, overrideRequiredReason_ne_empty _ _ _⟩
        · rename_i honline
          refine hdecided c.relaxedSpec (.inr ⟨rfl, by simpa using honline, ?_, by simp [hpast]⟩) h
          exact hasOverride_iff.mp (by simpa using hover)

theorem Routed.allows {w : Surroundings} {c : Call} {spec : ToolCallSpec} {route : ResolvedRoute}
    (h : Routed w spec c.registry route) (hspec : c.Resolving w spec) :
    (c.request w).Allows route.tier := by
  obtain ⟨hoffline, hprivacy⟩ := enforceTierPolicy_ok.mp h.enforced
  refine ⟨fun ho => ?_, fun hp h4 => ?_⟩
  · by_contra h3
    exact hoffline ⟨ho, by omega⟩
  · rcases hspec with rfl | ⟨rfl, -, hconfirmed, -⟩
    · exact absurd ⟨hp, h4⟩ hprivacy
    · exact hconfirmed

/-- The gate either refuses with a reason, or grants a route that the flags allow, or has no
opinion, which it has exactly when it is given neither a tier nor a registry. -/
inductive Governed (w : Surroundings) (c : Call) (d : GateDecision) : Prop
  | refused (opinion : c.frugalityTier ≠ none ∨ c.registry ≠ none) (refuses : d.Refuses)
  | granted (opinion : c.frugalityTier ≠ none ∨ c.registry ≠ none) (route : ResolvedRoute)
      (grants : d.Grants route) (allows : (c.request w).Allows route.tier)
  | noOpinion (unclassified : c.frugalityTier = none) (unregistered : c.registry = none)
      (silent : d = { hasRoute := false })

theorem consultGate_governed {w : Surroundings} {c : Call} {d : GateDecision}
    (h : consultGate w c = .ok d) : Governed w c d := by
  unfold consultGate at h
  cases htier : c.frugalityTier with
  | some tier =>
      simp only [htier, Except.ok.injEq] at h
      have hopinion : c.frugalityTier ≠ none ∨ c.registry ≠ none := .inl (by simp [htier])
      rcases consultByKnownTier_cases (c.request w) tier c.modelHint with hd | ⟨hd, hallows⟩
      · exact .refused hopinion (h ▸ hd)
      · exact .granted hopinion _ (h ▸ hd) hallows
  | none =>
      simp only [htier] at h
      cases hreg : c.registry with
      | none =>
          simp only [hreg, Except.ok.injEq] at h
          exact .noOpinion htier hreg h.symm
      | some registry =>
          simp only [hreg] at h
          have hopinion : c.frugalityTier ≠ none ∨ c.registry ≠ none := .inr (by simp [hreg])
          rcases consultByResolveRoute_ok h with hd | ⟨spec, route, hgrants, hrouted, hspec⟩
          · exact .refused hopinion hd
          · exact .granted hopinion route hgrants (hrouted.allows hspec)

end Router

end Perpetua.Gate

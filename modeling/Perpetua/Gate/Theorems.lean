import Perpetua.Gate.Lemmas.Routes

/-!
# What the gate lets through

Both ways of consulting the gate obey one tier policy, and a confirmed override is the only way
past the privacy ceiling. It also switches off the check that a tier-1 backend is local.
-/

namespace Perpetua.Gate

open Pipeline

/-! ## Ceilings -/

/-- What a decision may be. -/
structure GateContract (w : Surroundings) (c : Call) (d : GateDecision) : Prop where
  airgap : w.offline = true → ∀ route, d.route = some route → route.tier < 3
  privacy : c.privacyCritical = true → ∀ route, d.route = some route → 4 ≤ route.tier →
    c.overrideConfirmed = true ∧
      ∃ reason, c.overrideReason = some reason ∧ ∃ ch ∈ reason.toList, PyText.isSpace ch = false
  route : d.hasRoute = d.route.isSome
  /-- A denial is never confused with having no opinion. -/
  denial : d.hasRoute = false → c.frugalityTier ≠ none ∨ c.registry ≠ none →
    ∃ reason, d.deniedReason = some reason ∧ reason ≠ ""
  noOpinion : d.hasRoute = false → d.deniedReason = none →
    c.frugalityTier = none ∧ c.registry = none

structure PermitContract (r : Request) (tier : Option ℤ) (answer : Bool × Option String) :
    Prop where
  airgap : r.offline = true → ∀ t, tier = some t → 3 ≤ t → answer.1 = false
  privacy : r.privacyCritical = true → ∀ t, tier = some t → 4 ≤ t → answer.1 = true → r.Confirmed
  denial : answer.1 = false → ∃ reason, answer.2 = some reason ∧ reason ≠ ""
  unclassified : tier = none → answer = (true, none)

structure ChainContract {α : Type*} (r : Request) (frugalityTier : α → Option ℤ)
    (chain kept : List α) : Prop where
  narrows : kept.Sublist chain
  /-- The unclassified candidates are kept, in their order and as often as they occur. -/
  unclassified : kept.filter (fun a => (frugalityTier a).isNone) =
    chain.filter fun a => (frugalityTier a).isNone
  allowed : ∀ a ∈ kept, ∀ tier, frugalityTier a = some tier → r.Allows tier

theorem Governed.contract {w : Surroundings} {c : Call} {d : GateDecision} (h : Governed w c d) :
    GateContract w c d := by
  cases h with
  | refused opinion refuses =>
      obtain ⟨hroute, hnone, reason, hreason, hne⟩ := refuses
      refine ⟨fun _ r hr => ?_, fun _ r hr => ?_, by simp [hroute, hnone],
        fun _ _ => ⟨reason, hreason, hne⟩, fun _ hd => ?_⟩
      · simp [hnone] at hr
      · simp [hnone] at hr
      · simp [hreason] at hd
  | granted opinion route grants allows =>
      cases grants
      refine ⟨fun ho r hr => ?_, fun hp r hr h4 => ?_, rfl, fun hd => ?_, fun hd => ?_⟩
      · cases hr
        exact allows.1 ho
      · cases hr
        exact allows.2 hp h4
      · cases hd
      · cases hd
  | noOpinion unclassified unregistered silent =>
      subst silent
      refine ⟨fun _ _ hr => ?_, fun _ _ hr => ?_, rfl, fun _ ho => ?_,
        fun _ _ => ⟨unclassified, unregistered⟩⟩
      · cases hr
      · cases hr
      · simp [unclassified, unregistered] at ho

/-- `gate_permits` asks for a permitted tier. -/
theorem gatePermits_some (r : Request) (tier : ℤ) :
    ((gatePermits r (some tier)).1 = true ∧ r.Allows tier) ∨
      ((gatePermits r (some tier)).1 = false ∧
        ∃ reason, (gatePermits r (some tier)).2 = some reason ∧ reason ≠ "") := by
  rcases consultByKnownTier_cases r tier none with ⟨hroute, -, hreason⟩ | ⟨hgrants, hallows⟩
  · exact .inr ⟨hroute, hreason⟩
  · exact .inl ⟨congrArg GateDecision.hasRoute hgrants, hallows⟩

theorem gatePermits_contract (r : Request) (tier : Option ℤ) :
    PermitContract r tier (gatePermits r tier) := by
  cases tier with
  | none =>
      refine ⟨fun _ _ ht => ?_, fun _ _ ht => ?_, fun h => ?_, fun _ => rfl⟩
      · cases ht
      · cases ht
      · cases h
  | some tier =>
      rcases gatePermits_some r tier with ⟨hyes, hallows⟩ | ⟨hno, hreason⟩
      · refine ⟨fun ho t ht h3 => ?_, fun hp t ht h4 _ => ?_, fun h => ?_, fun h => ?_⟩
        · cases ht
          exact absurd (hallows.1 ho) (by omega)
        · cases ht
          exact hallows.2 hp h4
        · simp [hyes] at h
        · cases h
      · refine ⟨fun _ _ _ _ => hno, fun _ _ _ _ h => ?_, fun _ => hreason, fun h => ?_⟩
        · simp [hno] at h
        · cases h

theorem filterChainByGate_contract {α : Type*} (r : Request) (frugalityTier : α → Option ℤ)
    (chain : List α) :
    ChainContract r frugalityTier chain (filterChainByGate r frugalityTier chain) := by
  refine ⟨List.filter_sublist, ?_, fun a ha tier htier => ?_⟩
  · rw [filterChainByGate, List.filter_filter]
    refine List.filter_congr fun a _ => ?_
    cases htier : frugalityTier a with
    | none => rfl
    | some tier => rfl
  · obtain ⟨-, hyes⟩ := List.mem_filter.mp ha
    rw [htier] at hyes
    rcases gatePermits_some r tier with ⟨-, hallows⟩ | ⟨hno, -⟩
    · exact hallows
    · simp [hno] at hyes

theorem escalationPastCeiling_eq {w : Surroundings} {c : Call} (honline : w.offline = false)
    (hcritical : c.privacyCritical = true) :
    c.escalationPastCeiling w = c.escalationTier.filter fun tier => 3 < tier := by
  simp [Call.escalationPastCeiling, maxAllowedTier, Call.request, honline, hcritical]

section Router

variable [PyRuntime] [UrlParser] [IpAddresses]

/-- Whatever the mode, the flags and the tiers, the gate keeps to its ceilings. -/
theorem gate_ceilings {α : Type*} (w : Surroundings) :
    (∀ c d, consultGate w c = .ok d → GateContract w c d) ∧
      (∀ r tier, PermitContract r tier (gatePermits r tier)) ∧
        ∀ r (frugalityTier : α → Option ℤ) chain,
          ChainContract r frugalityTier chain (filterChainByGate r frugalityTier chain) :=
  ⟨fun _ _ h => (consultGate_governed h).contract, gatePermits_contract,
    filterChainByGate_contract⟩

end Router

section Sample

/-- ASCII text. -/
local instance sampleTexts : PyRuntime where
  upper := String.toUpper
  lower := String.toLower
  digit _ := none
  floatOfText _ := none
  textOf _ := ""

/-- URLs of the form `https://host`. -/
local instance sampleEndpoints : UrlParser where
  urlparse s := .ok
    { scheme := "https", hostname := some (.ofList (s.toList.drop 8)), username := ""
      password := "", path := "", query := "", fragment := "", port := .ok none }

/-- Host names only. -/
local instance sampleAddresses : IpAddresses where
  ipAddress _ := none

/-- A confirmed override dispatches a privacy-critical call to tier 4. -/
def knownCall : Call where
  taskType := "reasoning"
  privacyCritical := true
  frugalityTier := some 4
  overrideConfirmed := true
  overrideReason := some "approved"

theorem gate_ceilings_known :
    GateContract { offline := false } knownCall { hasRoute := true, route := some { tier := 4 } } :=
  (gate_ceilings (α := ℤ) { offline := false }).1 knownCall _ rfl

end Sample

/-! ## Restricted egress -/

section Router

variable [PyRuntime] [UrlParser] [IpAddresses]

/-- The backend that the registry resolves for the call. -/
def Call.Resolves (c : Call) (backend : Backend) : Prop :=
  c.frugalityTier = none ∧
    ∃ resolve, c.registry = some resolve ∧ resolve c.spec.launchSpec = .ok backend

/-- A tier-1 route of a restricted call leads to a local backend. A tier that was known up front
comes without any. -/
def Vetted (w : Surroundings) (c : Call) : Prop :=
  w.offline = true ∨ c.privacyCritical = true →
    ∀ d route, consultGate w c = .ok d → d.route = some route → route.tier = 1 →
      (c.frugalityTier = some 1 ∧ route.backend = none) ∨
        ∃ backend, c.Resolves backend ∧ route.backend = some backend.name ∧ backend.Local

/-- An online call whose privacy ceiling a confirmed override relaxes, while the registry resolves
a backend that is not local and nothing else stops the tier-1 probe. -/
structure RelaxesRemote (w : Surroundings) (c : Call) : Prop where
  online : w.offline = false
  critical : c.privacyCritical = true
  confirmed : (c.request w).Confirmed
  escalates : ∃ tier, c.escalationTier = some tier ∧ 3 < tier
  outOfContext : c.taskType ≠ "in_context"
  installed : w.resolverInstalled = true
  traced : w.traceFault = none
  remote : ∃ backend, c.Resolves backend ∧ ¬backend.Local

/-- With the flag cleared the probe takes any backend. -/
theorem resolveRoute_relaxed {w : Surroundings} {c : Call} (h : RelaxesRemote w c)
    {backend : Backend} (hb : c.Resolves backend) :
    resolveRoute w c.relaxedSpec c.registry c.escalationTier = .ok
      { tier := 1, backend := some backend.name
        model := c.modelHint <|> backend.models.head?, fallbackChain := [0] } := by
  obtain ⟨-, resolve, hreg, hresolve⟩ := hb
  have hprobe0 : probeTier0 c.relaxedSpec = none := by
    simp [probeTier0, Call.relaxedSpec, Call.spec, h.outOfContext]
  have hceiling : maxAllowedTier (c.relaxedSpec.request w) = 6 := by
    simp [maxAllowedTier, ToolCallSpec.request, Call.relaxedSpec, h.online]
  have hvalid : validateTier1LocalBackend w c.relaxedSpec backend = .ok () :=
    validateTier1LocalBackend_ok.mpr fun hr => by simp [Call.relaxedSpec, h.online] at hr
  have hprobe1 : probeTier1 w c.relaxedSpec c.registry = .ok (some
      { tier := 1, backend := some backend.name
        model := c.modelHint <|> backend.models.head?, fallbackChain := [0] }) := by
    have hl : resolve c.relaxedSpec.launchSpec = .ok backend := hresolve
    simp only [probeTier1, hreg, h.installed, if_true, hl, hvalid]
    rfl
  have henforced : enforceTierPolicy w 1 c.relaxedSpec = .ok () :=
    enforceTierPolicy_ok.mpr ⟨by omega, by omega⟩
  simp only [resolveRoute, firstRoute, hprobe0, hprobe1, hceiling, henforced, emitTrace, h.traced]
  rfl

theorem consultGate_relaxed {w : Surroundings} {c : Call} (h : RelaxesRemote w c)
    {backend : Backend} (hb : c.Resolves backend) :
    consultGate w c = .ok
      { hasRoute := true
        route := some { tier := 1, backend := some backend.name
                        model := c.modelHint <|> backend.models.head?, fallbackChain := [0] } } := by
  obtain ⟨tier, htier, h3⟩ := h.escalates
  obtain ⟨hknown, resolve, hreg, -⟩ := id hb
  have hpast : c.escalationPastCeiling w = some tier := by
    rw [escalationPastCeiling_eq h.online h.critical, htier]
    simp [h3]
  have hover : (c.request w).hasOverride = true := hasOverride_iff.mpr h.confirmed
  simp only [consultGate, hknown, hreg, consultByResolveRoute, hpast, hover, h.online]
  rw [← hreg, resolveRoute_relaxed h hb]
  rfl

/-- Exactly the relaxed calls can be led to a backend that is not local. -/
theorem vetted_iff (w : Surroundings) (c : Call) : Vetted w c ↔ ¬RelaxesRemote w c := by
  constructor
  · intro hvetted hrelaxes
    obtain ⟨backend, hb, hremote⟩ := hrelaxes.remote
    rcases hvetted (.inr hrelaxes.critical) _ _ (consultGate_relaxed hrelaxes hb) rfl rfl with
      ⟨hknown, -⟩ | ⟨local', hl, -, hlocal⟩
    · simp [hb.1] at hknown
    · obtain ⟨-, resolve, hreg, hresolve⟩ := hb
      obtain ⟨-, resolve', hreg', hresolve'⟩ := hl
      rw [hreg, Option.some.injEq] at hreg'
      subst hreg'
      rw [hresolve, Except.ok.injEq] at hresolve'
      exact hremote (hresolve' ▸ hlocal)
  · intro hno hrestricted d route hd hroute h1
    unfold consultGate at hd
    cases hknown : c.frugalityTier with
    | some tier =>
        simp only [hknown, Except.ok.injEq] at hd
        rcases consultByKnownTier_cases (c.request w) tier c.modelHint with hr | ⟨hgrants, -⟩
        · rw [← hd, hr.2.1] at hroute
          cases hroute
        · rw [← hd, hgrants] at hroute
          cases hroute
          exact .inl ⟨congrArg some h1, rfl⟩
    | none =>
        cases hreg : c.registry with
        | none =>
            simp only [hknown, hreg, Except.ok.injEq] at hd
            rw [← hd] at hroute
            cases hroute
        | some resolve =>
            simp only [hknown, hreg] at hd
            rcases consultByResolveRoute_ok hd with hr | ⟨spec, r, hgrants, hrouted, hspec⟩
            · rw [hr.2.1] at hroute
              cases hroute
            · rw [hgrants, Option.some.injEq] at hroute
              subst hroute
              obtain ⟨hinstalled, resolve', backend, hreg', hresolve, hname, hlocal⟩ :=
                hrouted.probed h1
              rcases hspec with rfl | ⟨rfl, honline, hconfirmed, hpast⟩
              · exact .inr ⟨backend, ⟨hknown, resolve', hreg', hresolve⟩, hname, hlocal hrestricted⟩
              · have hcritical : c.privacyCritical = true :=
                  hrestricted.resolve_left (by simp [honline])
                have hb : c.Resolves backend := ⟨hknown, resolve', hreg', hresolve⟩
                refine .inr ⟨backend, hb, hname, ?_⟩
                by_contra hremote
                rw [escalationPastCeiling_eq honline hcritical] at hpast
                obtain ⟨tier, htier⟩ := Option.ne_none_iff_exists'.mp hpast
                obtain ⟨htier, h3⟩ := Option.filter_eq_some_iff.mp htier
                exact hno ⟨honline, hcritical, hconfirmed, ⟨tier, htier, by simpa using h3⟩,
                  hrouted.outOfContext h1, hinstalled, hrouted.traced, backend, hb, hremote⟩

end Router

section Sample

attribute [local instance] sampleTexts sampleEndpoints sampleAddresses

/-- A confirmed override to tier 4, over a registry that resolves a public endpoint. -/
def remoteCall : Call where
  taskType := "reasoning"
  privacyCritical := true
  registry := some fun _ =>
    .ok { name := "openrouter", baseUrl := some "https://api.test", models := [] }
  escalationTier := some 4
  overrideConfirmed := true
  overrideReason := some "approved"

theorem not_vetted_override : ¬Vetted { offline := false } remoteCall := by
  have hremote : validateModelEndpointUrl "https://api.test" false =
      .error .modelEndpointPolicyError := by decide +kernel
  intro h
  rcases h (.inr rfl) _ { tier := 1, backend := some "openrouter", fallbackChain := [0] } rfl rfl
    rfl with ⟨hknown, -⟩ | ⟨backend, ⟨-, resolve, hreg, hresolve⟩, -, url, normalized, hurl, hvalid⟩
  · cases hknown
  · cases hreg
    cases hresolve
    cases hurl
    rw [hremote] at hvalid
    cases hvalid

end Sample

end Perpetua.Gate

import Perpetua.Lib.Retry
import Perpetua.Pipeline.Lemmas.Order
import Perpetua.Pipeline.Lemmas.Run
import Perpetua.Pipeline.Transport

/-!
# Paid fallbacks

When a failure of the transport that counts as safe to fall back from was safe, and what a run over
the transport does after one. `_post` judges by its last attempt alone.
-/

namespace Perpetua.Pipeline

/-! ## Providers -/

section Providers

variable [PyRuntime]

/-- A provider stands under its backend and has passed the checks of the loader. -/
structure Checked (entry : String × ProviderConfig) : Prop where
  backend : entry.2.backend = entry.1
  credentialEnv : entry.2.credentialEnv ≠ ""
  defaultApiPath : entry.2.defaultApiPath.startsWith "/"

theorem checked_of_loadProvider {configs configs' : List (String × ProviderConfig)}
    {row : Yaml × Yaml} (hconfigs : ∀ entry ∈ configs, Checked entry)
    (h : loadProvider configs row = .ok configs') : ∀ entry ∈ configs', Checked entry := by
  unfold loadProvider at h
  split at h
  · dsimp only at h
    split at h
    · cases h
    · cases h
    · cases h
    · split at h
      · split at h
        · cases h
        · rename_i hchecks
          simp only [Bool.or_eq_true, decide_eq_true_eq, Bool.not_eq_true', not_or,
            Bool.not_eq_false] at hchecks
          obtain ⟨⟨hcredential, hpath⟩, -⟩ := hchecks
          split at h
          · cases h
            intro entry hentry
            rcases Entries.mem_set hentry with rfl | hentry
            · exact ⟨rfl, hcredential, hpath⟩
            · exact hconfigs entry hentry
          · cases h
      · cases h
  · cases h

/-- Every provider of a file that loads has passed the checks. -/
theorem checked_of_loadProviderConfigs {file : YamlFile} {configs : List (String × ProviderConfig)}
    (h : loadProviderConfigs file = .ok configs) : ∀ entry ∈ configs, Checked entry := by
  unfold loadProviderConfigs at h
  split at h
  · cases h
  · cases h
  · cases h
  · split at h
    · split at h
      · exact Except.foldlM_invariant (I := fun configs => ∀ entry ∈ configs, Checked entry)
          (fun _ _ _ hconfigs hrow => checked_of_loadProvider hconfigs hrow) (List.forall_mem_nil _) h
      · cases h
    · cases h

end Providers

/-! ## Attempts -/

/-- The provider cannot have accepted the request. -/
def Reply.refused : Reply → Bool
  | .response status _ _ => 400 ≤ status && !ambiguousStatusCodes.contains status
  | .connectError => true
  | _ => false

/-- `_post` asks for another attempt. -/
def Reply.retried : Reply → Bool
  | .response status _ _ => 400 ≤ status && retryableStatusCodes.contains status
  | .connectError | .timeout | .networkError | .protocolError => true
  | .otherError => false

/-- What `_post` comes to when `reply` is its last attempt. -/
def verdict (provider : String) (reply : Reply) : Except PostError JsonObject :=
  match settleAttempt provider reply with
  | .stop r => r
  | .retry e => .error (.transport e)

/-- `_post` raises an error with `fallback_safe`. -/
def RaisesSafe (r : Except PostError JsonObject) : Prop :=
  ∃ e, r = .error (.transport e) ∧ e.fallbackSafe = true

theorem settleAttempt_retry (provider : String) (reply : Reply) :
    (∃ e, settleAttempt provider reply = .retry e) ↔ reply.retried = true := by
  cases reply with
  | response status requestId body =>
      simp only [settleAttempt, Reply.retried]
      by_cases hstatus : status < 400
      · rw [if_pos hstatus]
        split <;> simp [hstatus]
      · rw [if_neg hstatus]
        by_cases hretry : retryableStatusCodes.contains status <;> simp_all
  | _ => simp [settleAttempt, Reply.retried]

/-- The verdict allows a fallback for exactly the refused requests. -/
theorem raisesSafe_verdict (provider : String) (reply : Reply) :
    RaisesSafe (verdict provider reply) ↔ reply.refused = true := by
  cases reply with
  | response status requestId body =>
      simp only [verdict, settleAttempt, Reply.refused]
      by_cases hstatus : status < 400
      · rw [if_pos hstatus]
        split
        · rename_i h
          split at h <;> cases h <;> simp [RaisesSafe, ProviderTransportError.unanswered, hstatus]
        · rename_i h
          split at h <;> cases h
      · rw [if_neg hstatus]
        by_cases hretry : retryableStatusCodes.contains status <;>
          simp_all [RaisesSafe, ProviderTransportError.ofStatus]
  | _ => simp [verdict, settleAttempt, Reply.refused, RaisesSafe]

theorem postLoop_eq (provider : String) (replies : ℕ → Reply) {n : ℕ} (hn : 0 < n) (i : ℕ)
    (lastError : Option ProviderTransportError) :
    ∃ j, Retry.Last Reply.retried replies n i j ∧
      postLoop provider replies n i lastError =
        (verdict provider (replies (i + j)), Retry.made Reply.retried replies n i) := by
  induction n generalizing i lastError with
  | zero => exact absurd hn (Nat.lt_irrefl 0)
  | succ n ih =>
      cases hsettle : settleAttempt provider (replies i) with
      | stop r =>
          have hretried : (replies i).retried = false := by
            rw [← Bool.not_eq_true, ← settleAttempt_retry provider, hsettle]
            simp
          exact ⟨0, ⟨hn, by simp, .inr hretried⟩,
            by simp [postLoop, Retry.made, verdict, hsettle, hretried]⟩
      | retry e =>
          have hretried : (replies i).retried = true := (settleAttempt_retry provider _).mp ⟨e, hsettle⟩
          rcases Nat.eq_zero_or_pos n with rfl | hpos
          · exact ⟨0, ⟨hn, by simp, .inl rfl⟩,
              by simp [postLoop, Retry.made, verdict, hsettle, hretried]⟩
          · obtain ⟨j, hlast, hloop⟩ := ih hpos (i + 1) (some e)
            refine ⟨j + 1, hlast.succ hretried, ?_⟩
            simp [postLoop, Retry.made, hsettle, hretried, hloop, Nat.add_assoc, Nat.add_comm 1]

/-- An attempt that the provider may have accepted was retried, and the last attempt is one that it
cannot have accepted. -/
def AmbiguousRetried (maxAttempts : ℕ) (replies : ℕ → Reply) : Prop :=
  ∃ i j, Retry.Last Reply.retried replies maxAttempts 0 j ∧ i < j ∧
    (replies i).refused = false ∧ (replies j).refused = true

/-- If `_post` allows a fallback, the provider has accepted none of its attempts. -/
def PostSafe (provider : ProviderConfig) (replies : ℕ → Reply) : Prop :=
  RaisesSafe (post provider replies).1 → ∀ r ∈ (post provider replies).2, r.refused = true

theorem postSafe_iff (provider : ProviderConfig) (replies : ℕ → Reply) :
    PostSafe provider replies ↔ ¬AmbiguousRetried provider.maxAttempts replies := by
  obtain ⟨j, hlast, hpost⟩ := postLoop_eq provider.backend replies provider.attempts.1 0 none
  obtain ⟨j', hlast', hmade⟩ :=
    Retry.exists_last Reply.retried replies provider.attempts.1 0
  obtain rfl := hlast.unique hlast'
  rw [hmade] at hpost
  simp only [Nat.zero_add] at hpost
  rw [PostSafe, post, hpost, raisesSafe_verdict]
  simp only [List.mem_map, List.mem_range]
  constructor
  · rintro hsafe ⟨i, k, hk, hik, hi, hrefused⟩
    obtain rfl := hlast.unique hk
    rw [hsafe hrefused _ ⟨i, by omega, rfl⟩] at hi
    cases hi
  · rintro hnot hrefused r ⟨i, hi, rfl⟩
    rcases Nat.lt_succ_iff_lt_or_eq.mp hi with hi | rfl
    · by_contra hne
      exact hnot ⟨i, j, hlast, hi, by simpa using hne, hrefused⟩
    · exact hrefused

/-! ## Runs over the transport -/

section

variable [PyRuntime] [UrlParser]

/-- The call with the transport as its dispatcher. -/
def Call.over (call : Call) (t : ProviderTransportRegistry) (exchange : List Event → Exchange) :
    Call :=
  { call with dispatch := t.dispatcher exchange }

/-- No fallback after an attempt that the provider may have accepted. -/
structure PaidFallbackSafe (t : ProviderTransportRegistry) (exchange : List Event → Exchange)
    (log : List Event) : Prop where
  posted : ∀ (pre : List Event) (d : Dispatch) (post : List Event), log = pre ++ .dispatch d :: post →
    ∀ p ∈ t.posted (exchange (pre ++ [.dispatch d])) d.model,
      PostSafe p.provider (exchange (pre ++ [.dispatch d])).replies
  /-- A second candidate of a stage is called only after attempts that were refused. -/
  candidates : ∀ (pre : List Event) (d : Dispatch) (mid : List Event) (d' : Dispatch)
    (post : List Event), log = pre ++ .dispatch d :: (mid ++ .dispatch d' :: post) → d'.stage = d.stage →
      ∀ r ∈ t.attempts (exchange (pre ++ [.dispatch d])) d.model, r.refused = true

/-- No request of the run retries an ambiguous attempt and then ends with a refusal. -/
def NoAmbiguousRetry (t : ProviderTransportRegistry) (exchange : List Event → Exchange)
    (log : List Event) : Prop :=
  ∀ (pre : List Event) (d : Dispatch) (post : List Event), log = pre ++ .dispatch d :: post →
    ∀ p ∈ t.posted (exchange (pre ++ [.dispatch d])) d.model,
      ¬AmbiguousRetried p.provider.maxAttempts (exchange (pre ++ [.dispatch d])).replies

/-- A request that the runner may fall back from reached no provider or ended safely. -/
theorem posted_of_unavailable {t : ProviderTransportRegistry} {x : Exchange} {model : String}
    (h : t.dispatch x model = .unavailable true) {p : Prepared} (hp : p ∈ t.posted x model) :
    RaisesSafe (post p.provider x.replies).1 := by
  unfold ProviderTransportRegistry.posted at hp
  unfold ProviderTransportRegistry.dispatch at h
  split at hp
  · rename_i q hq
    rw [hq] at h
    split at hp
    · cases hp
    · rename_i hcommit
      cases hp
      simp only [if_neg hcommit] at h
      split at h
      · rename_i e he
        exact ⟨e, he, by simpa using h⟩
      · cases h
      · split at h
        · cases h
        · split at h
          · simp [ProviderTransportError.unanswered] at h
          · cases h
  · cases hp

theorem paidFallbackSafe_iff (runner : TieredPipelineRunner) (call : Call)
    (t : ProviderTransportRegistry) (exchange : List Event → Exchange) :
    PaidFallbackSafe t exchange (runner.run (call.over t exchange)).2 ↔
      NoAmbiguousRetry t exchange (runner.run (call.over t exchange)).2 := by
  constructor
  · intro h pre d post he p hp
    exact (postSafe_iff _ _).mp (h.posted pre d post he p hp)
  · intro h
    refine ⟨fun pre d post he p hp => (postSafe_iff _ _).mpr (h pre d post he p hp), ?_⟩
    intro pre d mid d' post he hd r hr
    have houtcome := run_outcome runner (call.over t exchange)
    generalize runner.run (call.over t exchange) = o at h he houtcome
    cases houtcome with
    | early => cases pre <;> cases he
    | late hrecipe _ hf _ =>
        have hrefused := hf.next_candidate (recipe_accepted hrecipe).stages.distinct he hd
        have hdispatch :
            t.dispatch (exchange (pre ++ [.dispatch d])) d.model = .unavailable true := by
          simpa [Call.over, ProviderTransportRegistry.dispatcher] using hrefused
        unfold ProviderTransportRegistry.attempts at hr
        split at hr
        · rename_i p hp
          have hsafe := (postSafe_iff _ _).mpr (h pre d _ he p hp)
          exact hsafe (posted_of_unavailable hdispatch hp) r hr
        · cases hr

/-- The claim of `_post` and of the runs over it, each with the requests it fails for. -/
theorem fallbackSafe_iff :
    (∀ provider replies,
      PostSafe provider replies ↔ ¬AmbiguousRetried provider.maxAttempts replies) ∧
    ∀ (runner : TieredPipelineRunner) (call : Call) (t : ProviderTransportRegistry)
      (exchange : List Event → Exchange),
      PaidFallbackSafe t exchange (runner.run (call.over t exchange)).2 ↔
        NoAmbiguousRetry t exchange (runner.run (call.over t exchange)).2 :=
  ⟨postSafe_iff, paidFallbackSafe_iff⟩

end

/-! ## A second candidate after a timeout -/

/-- The runner over sources that are accepted. -/
def TieredPipelineRunner.ofAccepted [PyRuntime] (sources : Sources)
    (h : (loadAndValidate sources).isOk = true) : TieredPipelineRunner :=
  match hl : loadAndValidate sources with
  | .ok loaded => ⟨sources, loaded, hl⟩
  | .error e => absurd h (by rw [hl]; exact Bool.false_ne_true)

section Sample

/-- ASCII text and plain integers. -/
local instance sampleRuntime : PyRuntime where
  upper := String.toUpper
  lower := String.toLower
  digit c := if c.isDigit then some (c.toNat - 48) else none
  floatOfText _ := none
  textOf _ := ""

/-- Addresses of the form `https://host`. -/
local instance sampleUrls : UrlParser where
  urlparse s := .ok
    { scheme := "https", hostname := some (.ofList (s.toList.drop 8)), username := ""
      password := "", path := "", query := "", fragment := "", port := .ok none }

def sampleSources : Sources where
  config := .parsed (.map [
    (.str "models", .map [(.str "fast", .map [
      (.str "candidates", .seq [.str "first", .str "second"])])]),
    (.str "recipes", .map [(.str "answer", .map [
      (.str "cost_reservation_usd", .num (.int 1)),
      (.str "stages", .seq [.map [
        (.str "name", .str "generate"), (.str "model", .str "fast"),
        (.str "max_tokens", .num (.int 100))]])])])])
  modelsPathIsFile := true
  registry := .parsed (.map [(.str "models", .seq [
    .map [(.str "name", .str "first"), (.str "backend", .str "mistral"),
      (.str "frugality_tier", .num (.int 5))],
    .map [(.str "name", .str "second"), (.str "backend", .str "groq"),
      (.str "frugality_tier", .num (.int 5))]])])
  getenv _ := none

def sampleRunner : TieredPipelineRunner := .ofAccepted sampleSources (by decide +kernel)

def sampleProvider (backend : String) : ProviderConfig where
  backend := backend
  credentialEnv := "KEY"
  allowedHosts := ["api.test"]
  documentationHosts := ["docs.test"]
  defaultApiPath := "/v1/chat/completions"
  maxAttempts := 2
  apiVersion := none
  attempts := ⟨by decide, by decide⟩

def sampleTarget (name backend : String) : ModelTarget where
  name := name
  backend := backend
  device := "cloud"
  host := "https://api.test"
  apiModel := name
  apiPath := ""
  providerOptions := .null
  provenance := .map [(.str "kind", .str "provider-api"), (.str "source_model_id", .str name),
    (.str "source_url", .str "https://docs.test")]
  frugalityTier := .num (.int 5)

def sampleTransport : ProviderTransportRegistry where
  providers := [("mistral", sampleProvider "mistral"), ("groq", sampleProvider "groq")]
  models := [("first", sampleTarget "first" "mistral"), ("second", sampleTarget "second" "groq")]

/-- The first attempt times out, the next ones find no connection. -/
def sampleReplies : ℕ → Reply
  | 0 => .timeout
  | _ => .connectError

def sampleExchange (_ : List Event) : Exchange where
  getenv _ := some "secret"
  commitFails := false
  replies := sampleReplies

def sampleCall : Call where
  recipeName := "answer"
  prompt := "question"
  approval := some
    { traceId := "trace-01", approvedBy := "operator", purpose := "test", recipe := "answer"
      routeTier := 5, maxTokens := 100, maxCostUsd := .int 1, expiresAt := ⟨true, 1⟩
      scope := ["mistral", "groq"] }
  flag := some "1"
  config := .missing
  now := 0
  revoked := .notConfigured
  gate := { offline := false }
  dispatch _ := .failed
  traceRefused _ := false

def sampleStage : PipelineStage where
  name := "generate"
  models := ["first", "second"]
  maxTokens := 100

/-- The request to one model. -/
def sampleDispatch (model : String) : Dispatch :=
  ⟨model, "Original request:\nquestion", 100, "generate"⟩

theorem sampleRun_events :
    (sampleRunner.run (sampleCall.over sampleTransport sampleExchange)).2 =
      ([.approved, .permitted, .prompt sampleStage []] : List Event) ++
        Event.dispatch (sampleDispatch "first") ::
          (([.answer (sampleDispatch "first") (.unavailable true),
              .trace "generate" "first" .unavailable] : List Event) ++
            Event.dispatch (sampleDispatch "second") ::
              [.answer (sampleDispatch "second") (.unavailable true),
                .trace "generate" "second" .unavailable]) := by
  decide +kernel

/-- The first candidate times out before it loses its connection, and the second is paid too. -/
theorem not_fallbackSafe_timeout :
    ¬PostSafe (sampleProvider "mistral") sampleReplies ∧
      ¬PaidFallbackSafe sampleTransport sampleExchange
        (sampleRunner.run (sampleCall.over sampleTransport sampleExchange)).2 := by
  constructor
  · intro h
    exact Bool.false_ne_true (h ⟨_, rfl, rfl⟩ .timeout List.mem_cons_self)
  · intro h
    have hall := List.all_eq_true.mpr (h.candidates _ _ _ _ _ sampleRun_events rfl)
    have hsome :
        (sampleTransport.attempts (sampleExchange []) "first").all Reply.refused = false := by
      decide +kernel
    exact Bool.false_ne_true (hsome.symm.trans hall)

end Sample

end Perpetua.Pipeline

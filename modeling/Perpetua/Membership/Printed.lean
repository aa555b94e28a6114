import Perpetua.Lib.JsonEquality
import Perpetua.Membership

/-!
# Equality of observations and their texts

`==` of two observations, as the dataclass defines it, against what `to_json` writes. Numbers are
compared by what they print.
-/

namespace Perpetua.Membership

open Json

instance : IntCast Number := ⟨.int⟩

/-! ## Printed observations -/

section

variable {φ : Type} [IntCast φ] [PyReal.Text φ]

/-- The fields with the numbers as they are printed. -/
def Fields.printed (f : Fields φ) : Fields Number where
  peerId := f.peerId
  epoch := f.epoch
  timestamp := PyReal.Text.repr f.timestamp
  observerId := f.observerId
  observationType := f.observationType
  directStatus := f.directStatus
  endpoint := f.endpoint
  endpointEpoch := f.endpointEpoch
  sequence := f.sequence
  observerProvenance := f.observerProvenance
  lastHeartbeatTimestamp := f.lastHeartbeatTimestamp.map PyReal.Text.repr
  lastProbeTimestamp := f.lastProbeTimestamp.map PyReal.Text.repr
  probeLatencyMs := f.probeLatencyMs.map PyReal.Text.repr
  route := f.route
  probeResult := f.probeResult
  relayProof := f.relayProof
  proofScore := PyReal.Text.repr f.proofScore
  freshnessScore := PyReal.Text.repr f.freshnessScore
  witnessAgreement := f.witnessAgreement
  witnessDisagreement := f.witnessDisagreement
  backendCaps := f.backendCaps
  backendState := f.backendState
  backendStateTimestamp := f.backendStateTimestamp.map PyReal.Text.repr
  ttlSeconds := f.ttlSeconds
  tags := f.tags
  notes := f.notes
  sourceId := f.sourceId
  chainDepth := f.chainDepth

mutual

def Tree.printed : Tree φ → Tree Number
  | .node f witnessSet => .node f.printed (printedAll witnessSet)

def Tree.printedAll : List (Tree φ) → List (Tree Number)
  | [] => []
  | w :: ws => w.printed :: printedAll ws

end

end

/-! ## Equality -/

/-- `==` of two values that may be `None`. -/
def eqOption {α : Type} (eq : α → α → Bool) : Option α → Option α → Bool
  | none, none => true
  | some a, some b => eq a b
  | _, _ => false

/-- `==` of two dictionaries. -/
def eqDict (p q : List (String × Value)) : Bool := (Value.obj p).eq (.obj q)

def Fields.eq (f g : Fields Number) : Bool :=
  f.peerId = g.peerId && f.epoch = g.epoch && f.timestamp.eq g.timestamp &&
  f.observerId = g.observerId && f.observationType = g.observationType &&
  f.directStatus = g.directStatus && f.endpoint = g.endpoint &&
  f.endpointEpoch = g.endpointEpoch && f.sequence = g.sequence &&
  f.observerProvenance = g.observerProvenance &&
  eqOption Number.eq f.lastHeartbeatTimestamp g.lastHeartbeatTimestamp &&
  eqOption Number.eq f.lastProbeTimestamp g.lastProbeTimestamp &&
  eqOption Number.eq f.probeLatencyMs g.probeLatencyMs && f.route = g.route &&
  eqOption eqDict f.probeResult g.probeResult && f.relayProof = g.relayProof &&
  f.proofScore.eq g.proofScore && f.freshnessScore.eq g.freshnessScore &&
  f.witnessAgreement = g.witnessAgreement && f.witnessDisagreement = g.witnessDisagreement &&
  f.backendCaps = g.backendCaps && f.backendState = g.backendState &&
  eqOption Number.eq f.backendStateTimestamp g.backendStateTimestamp &&
  f.ttlSeconds = g.ttlSeconds && f.tags = g.tags && f.notes = g.notes && f.sourceId = g.sourceId &&
  f.chainDepth = g.chainDepth

mutual

def Tree.eq : Tree Number → Tree Number → Bool
  | .node f ws, .node g vs => f.eq g && eqAll ws vs

def Tree.eqAll : List (Tree Number) → List (Tree Number) → Bool
  | [], [] => true
  | w :: ws, v :: vs => w.eq v && eqAll ws vs
  | _, _ => false

end

section

variable {φ : Type} [PyReal φ] [PyReal.Text φ]

/-- `==` of observations. -/
def PeerObservation.eq (o p : PeerObservation φ) : Bool := o.tree.printed.eq p.tree.printed

/-- Two observations whose fields hold the same, numbers in the same notation and the keys of
`probe_result` in the same order. -/
def PeerObservation.Identical (o p : PeerObservation φ) : Prop := o.tree.printed = p.tree.printed

end

/-! ## Observations without `nan` -/

structure Fields.NoNan (f : Fields Number) : Prop where
  timestamp : f.timestamp ≠ .nan
  lastHeartbeatTimestamp : ∀ n ∈ f.lastHeartbeatTimestamp, n ≠ .nan
  lastProbeTimestamp : ∀ n ∈ f.lastProbeTimestamp, n ≠ .nan
  probeLatencyMs : ∀ n ∈ f.probeLatencyMs, n ≠ .nan
  probeResult : ∀ p ∈ f.probeResult, (Value.obj p).NoNan
  proofScore : f.proofScore ≠ .nan
  freshnessScore : f.freshnessScore ≠ .nan
  backendStateTimestamp : ∀ n ∈ f.backendStateTimestamp, n ≠ .nan

/-- No number is `nan`, here and in all witnesses. -/
inductive Tree.NoNan : Tree Number → Prop
  | node {f : Fields Number} {ws : List (Tree Number)} (hf : f.NoNan) (hws : ∀ w ∈ ws, w.NoNan) :
      NoNan (.node f ws)

theorem eqOption_self {α : Type} {eq : α → α → Bool} {a : Option α} (h : ∀ x ∈ a, eq x x = true) :
    eqOption eq a a = true := by
  cases a with
  | none => rfl
  | some x => exact h x rfl

theorem Fields.NoNan.eq_self {f : Fields Number} (h : f.NoNan) : f.eq f = true := by
  have hnumber : ∀ {a : Option Number}, (∀ n ∈ a, n ≠ .nan) → eqOption Number.eq a a = true :=
    fun ha => eqOption_self fun n hn => Number.eq_self (ha n hn)
  have hprobe : eqOption eqDict f.probeResult f.probeResult = true :=
    eqOption_self fun p hp => (h.probeResult p hp).eq_self
  simp [Fields.eq, Number.eq_self h.timestamp, hnumber h.lastHeartbeatTimestamp,
    hnumber h.lastProbeTimestamp, hnumber h.probeLatencyMs, hprobe, Number.eq_self h.proofScore,
    Number.eq_self h.freshnessScore, hnumber h.backendStateTimestamp]

theorem Tree.eqAll_self {ws : List (Tree Number)} (h : ∀ w ∈ ws, w.eq w = true) :
    eqAll ws ws = true := by
  induction ws with
  | nil => rfl
  | cons w ws ih =>
      rw [eqAll, h w List.mem_cons_self, ih fun v hv => h v (List.mem_cons_of_mem w hv)]
      rfl

theorem Tree.NoNan.eq_self {t : Tree Number} (h : t.NoNan) : t.eq t = true := by
  induction h with
  | node hf _ ih =>
      rw [Tree.eq, hf.eq_self, eqAll_self ih]
      rfl

/-! ## Dictionaries -/

section

variable {φ : Type} [IntCast φ] [PyReal.Text φ]

/-- The probe results are dictionaries: none has a key twice. -/
inductive Tree.Dicts : Tree φ → Prop
  | node {f : Fields φ} {ws : List (Tree φ)}
      (hprobe : ∀ p ∈ f.probeResult, (Value.obj p).DistinctKeys) (hws : ∀ w ∈ ws, w.Dicts) :
      Dicts (.node f ws)

theorem ofOption_distinctKeys {α : Type} {f : α → Value} {a : Option α}
    (h : ∀ x ∈ a, (f x).DistinctKeys) : (ofOption f a).DistinctKeys := by
  cases a with
  | none => exact .null
  | some x => exact h x rfl

theorem strings_distinctKeys (l : List String) : (strings l).DistinctKeys := by
  refine .arr fun v hv => ?_
  obtain ⟨s, -, rfl⟩ := List.mem_map.mp hv
  exact .str s

theorem Tree.mem_toDicts {ws : List (Tree φ)} {v : Value} (h : v ∈ toDicts ws) :
    ∃ w ∈ ws, v = w.toDict := by
  induction ws with
  | nil => cases h
  | cons w ws ih =>
      rw [toDicts] at h
      rcases List.mem_cons.mp h with rfl | h
      · exact ⟨w, List.mem_cons_self, rfl⟩
      · obtain ⟨w', hw', hv⟩ := ih h
        exact ⟨w', List.mem_cons_of_mem w hw', hv⟩

theorem Tree.Dicts.distinctKeys {t : Tree φ} (h : t.Dicts) : t.toDict.DistinctKeys := by
  induction h with
  | @node f ws hprobe _ ih =>
      have hnumber : ∀ a : Option φ, (ofOption number a).DistinctKeys := fun a =>
        ofOption_distinctKeys fun _ _ => .num _
      have hstring : ∀ a : Option String, (ofOption .str a).DistinctKeys := fun a =>
        ofOption_distinctKeys fun _ _ => .str _
      have hwitnesses : (Value.arr (toDicts ws)).DistinctKeys := by
        refine .arr fun v hv => ?_
        obtain ⟨w, hw, rfl⟩ := mem_toDicts hv
        exact ih w hw
      rw [toDict]
      refine .obj (by simp) ?_
      simp only [List.forall_mem_cons]
      exact ⟨.str _, .num _, .num _, .str _, .num _, .str _, .str _, .str _, .str _, .num _, hnumber _,
        hnumber _, hnumber _, .str _, ofOption_distinctKeys hprobe, hstring _, .num _, .num _, .num _,
        .num _, hwitnesses, strings_distinctKeys _, ofOption_distinctKeys fun _ _ => .str _, hnumber _,
        ofOption_distinctKeys fun _ _ => .num _, strings_distinctKeys _, .str _, hstring _, .num _,
        List.forall_mem_nil _⟩

/-! ## What a dictionary tells -/

theorem ObservationType.value_inj {a b : ObservationType} : a.value = b.value ↔ a = b := by
  cases a <;> cases b <;> simp [ObservationType.value]

theorem DirectStatus.value_inj {a b : DirectStatus} : a.value = b.value ↔ a = b := by
  cases a <;> cases b <;> simp [DirectStatus.value]

theorem Route.value_inj {a b : Route} : a.value = b.value ↔ a = b := by
  cases a <;> cases b <;> simp [Route.value]

theorem BackendState.value_inj {a b : BackendState} : a.value = b.value ↔ a = b := by
  cases a <;> cases b <;> simp [BackendState.value]

theorem ofOption_inj {α β : Type} {f : α → Value} {g : α → β} (hnull : ∀ x, f x ≠ .null)
    (hf : ∀ x y, f x = f y ↔ g x = g y) {a b : Option α} :
    ofOption f a = ofOption f b ↔ a.map g = b.map g := by
  cases a with
  | none =>
      cases b with
      | none => simp
      | some y => simpa [ofOption] using (hnull y).symm
  | some x =>
      cases b with
      | none => simpa [ofOption] using hnull x
      | some y => simpa [ofOption] using hf x y

omit [IntCast φ] in
theorem number_inj {x y : φ} : number x = number y ↔ PyReal.Text.repr x = PyReal.Text.repr y := by
  rw [number, number, Value.num.injEq]

theorem strings_inj {l m : List String} : strings l = strings m ↔ l = m := by
  rw [strings, strings, Value.arr.injEq, List.map_inj_right fun _ _ h => by simpa using h]

theorem sort_inj {s t : Finset String} : s.sort (· ≤ ·) = t.sort (· ≤ ·) ↔ s = t := by
  constructor
  · intro h
    rw [← s.sort_toFinset (· ≤ ·), h, t.sort_toFinset]
  · rintro rfl
    rfl

mutual

/-- The dictionaries tell the fields apart, but not how the same number prints. -/
theorem Tree.toDict_inj : (s t : Tree φ) → (s.toDict = t.toDict ↔ s.printed = t.printed)
  | .node f ws, .node g vs => by
      have hnumber : ∀ {a b : Option φ}, ofOption number a = ofOption number b ↔
          a.map PyReal.Text.repr = b.map PyReal.Text.repr :=
        ofOption_inj (fun _ => Value.noConfusion) fun _ _ => number_inj
      have hstring : ∀ {a b : Option String}, ofOption .str a = ofOption .str b ↔ a = b := by
        intro a b
        simpa using ofOption_inj (f := .str) (g := id) (fun _ => Value.noConfusion) (by simp)
      have hwitnesses := Tree.toDicts_inj ws vs
      have hprobe : ofOption .obj f.probeResult = ofOption .obj g.probeResult ↔
          f.probeResult = g.probeResult := by
        simpa using ofOption_inj (f := .obj) (g := id) (fun _ => Value.noConfusion) (by simp)
      have hstate : ofOption (fun s => .str s.value) f.backendState =
          ofOption (fun s => .str s.value) g.backendState ↔ f.backendState = g.backendState := by
        simpa using ofOption_inj (f := fun s : BackendState => .str s.value) (g := id)
          (fun _ => Value.noConfusion) (by simp [BackendState.value_inj])
      have httl : ofOption (fun n => .num (.int n)) f.ttlSeconds =
          ofOption (fun n => .num (.int n)) g.ttlSeconds ↔ f.ttlSeconds = g.ttlSeconds := by
        simpa using ofOption_inj (f := fun n : ℤ => .num (.int n)) (g := id)
          (fun _ => Value.noConfusion) (by simp)
      rw [toDict, toDict, printed, printed]
      simp only [Value.obj.injEq, List.cons.injEq, Prod.mk.injEq, true_and, Value.str.injEq,
        Value.num.injEq, Number.int.injEq, number_inj, hnumber, hstring, hprobe, hstate, httl,
        ObservationType.value_inj, DirectStatus.value_inj, Route.value_inj, Value.arr.injEq,
        hwitnesses, strings_inj, sort_inj, and_true, Tree.node.injEq, Fields.printed, Fields.mk.injEq]
      -- the dictionary lists some fields earlier or later than the dataclass
      constructor
      · rintro ⟨h₁, h₂, h₃, h₄, h₅, h₆, h₇, h₈, h₉, h₁₀, h₁₁, h₁₂, h₁₃, h₁₄, h₁₅, h₁₆, h₁₇, h₁₈,
          h₁₉, h₂₀, h₂₁, h₂₂, h₂₃, h₂₄, h₂₅, h₂₆, h₂₇, h₂₈, h₂₉⟩
        exact ⟨⟨h₁, h₂, h₃, h₄, h₇, h₈, h₉, h₁₀, h₅, h₆, h₁₁, h₁₂, h₁₃, h₁₄, h₁₅, h₁₆, h₁₇, h₁₈,
          h₁₉, h₂₀, h₂₂, h₂₃, h₂₄, h₂₅, h₂₆, h₂₇, h₂₈, h₂₉⟩, h₂₁⟩
      · rintro ⟨⟨h₁, h₂, h₃, h₄, h₇, h₈, h₉, h₁₀, h₅, h₆, h₁₁, h₁₂, h₁₃, h₁₄, h₁₅, h₁₆, h₁₇, h₁₈,
          h₁₉, h₂₀, h₂₂, h₂₃, h₂₄, h₂₅, h₂₆, h₂₇, h₂₈, h₂₉⟩, h₂₁⟩
        exact ⟨h₁, h₂, h₃, h₄, h₅, h₆, h₇, h₈, h₉, h₁₀, h₁₁, h₁₂, h₁₃, h₁₄, h₁₅, h₁₆, h₁₇, h₁₈,
          h₁₉, h₂₀, h₂₁, h₂₂, h₂₃, h₂₄, h₂₅, h₂₆, h₂₇, h₂₈, h₂₉⟩

theorem Tree.toDicts_inj : (ws vs : List (Tree φ)) →
    (toDicts ws = toDicts vs ↔ printedAll ws = printedAll vs)
  | [], [] => by simp [toDicts, printedAll]
  | [], _ :: _ => by simp [toDicts, printedAll]
  | _ :: _, [] => by simp [toDicts, printedAll]
  | w :: ws, v :: vs => by
      rw [toDicts, toDicts, printedAll, printedAll, List.cons.injEq, List.cons.injEq,
        Tree.toDict_inj w v, Tree.toDicts_inj ws vs]

end

end

/-! ## What the text tells -/

variable {φ : Type} [PyReal φ] [PyReal.Text φ] {o p : PeerObservation φ}

theorem PeerObservation.Identical.eq (h : o.Identical p) (hnan : o.tree.printed.NoNan) :
    p.eq o = true := by
  rw [Identical] at h
  rw [PeerObservation.eq, ← h]
  exact hnan.eq_self

end Perpetua.Membership

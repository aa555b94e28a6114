import Perpetua.Lib.Except
import Perpetua.Membership.Codec

/-!
# What the wire codec keeps

Whatever is decoded has gone through the constructor, at every level of the tree. What is encoded
and decoded again is the same observation, as long as it has no `nan`, which is not equal to itself.
-/

namespace Perpetua.Membership

open Json (Value Number)

/-! ## Limits -/

/-- Scores within bounds and no limit exceeded, here and in all witnesses. -/
inductive WireObservation.Valid : WireObservation → Prop
  | node {f : WireFields Frozen} {ws : List WireObservation}
      (hproof : ∃ n, f.proofScore.number? = some n ∧ inBounds n = true)
      (hfreshness : ∃ n, f.freshnessScore.number? = some n ∧ inBounds n = true)
      (hdepth : (WireObservation.node f ws).depth ≤ maxWitnessDepth)
      (hchain : ∃ n, f.chainDepth.number? = some n ∧ exceedsChain n = false)
      (hws : ∀ w ∈ ws, w.Valid) : Valid (.node f ws)

theorem validateBound_eq_ok {field : String} {v : Value} :
    validateBound field v = .ok () ↔ ∃ n, v.number? = some n ∧ inBounds n = true := by
  unfold validateBound
  cases v.number? with
  | none => simp
  | some n => simp

theorem validateWitnessDepth_eq_ok {ws : List WireObservation} :
    validateWitnessDepth ws = .ok () ↔ 1 + WireObservation.maxDepth ws ≤ maxWitnessDepth := by
  simp [validateWitnessDepth]

theorem validateChainDepth_eq_ok {v : Value} :
    validateChainDepth v = .ok () ↔ ∃ n, v.number? = some n ∧ exceedsChain n = false := by
  unfold validateChainDepth
  cases v.number? with
  | none => simp
  | some n => simp

/-- What the constructor checks and returns. -/
theorem construct_eq_ok {args : WireFields Value} {ws : List WireObservation}
    {o : WireObservation} : construct args ws = .ok o ↔
      validateBound "proof_score" args.proofScore = .ok () ∧
      validateBound "freshness_score" args.freshnessScore = .ok () ∧
      validateWitnessDepth ws = .ok () ∧ validateChainDepth args.chainDepth = .ok () ∧
      .node { args with probeResult := freeze args.probeResult, tags := frozenset args.tags } ws =
        o := by
  unfold construct
  constructor
  · intro h
    obtain ⟨_, hproof, h⟩ := Except.bind_eq_ok.mp h
    obtain ⟨_, hfreshness, h⟩ := Except.bind_eq_ok.mp h
    obtain ⟨_, hdepth, h⟩ := Except.bind_eq_ok.mp h
    obtain ⟨_, hchain, h⟩ := Except.bind_eq_ok.mp h
    exact ⟨hproof, hfreshness, hdepth, hchain, Except.ok.inj h⟩
  · rintro ⟨hproof, hfreshness, hdepth, hchain, rfl⟩
    rw [hproof, hfreshness, hdepth, hchain]
    rfl

theorem construct_valid {args : WireFields Value} {ws : List WireObservation} {o : WireObservation}
    (h : construct args ws = .ok o) (hws : ∀ w ∈ ws, w.Valid) : o.Valid := by
  obtain ⟨hproof, hfreshness, hdepth, hchain, rfl⟩ := construct_eq_ok.mp h
  exact .node (validateBound_eq_ok.mp hproof) (validateBound_eq_ok.mp hfreshness)
    (validateWitnessDepth_eq_ok.mp hdepth) (validateChainDepth_eq_ok.mp hchain) hws

mutual

theorem fromDict_valid : (v : Value) → {o : WireObservation} → fromDict v = .ok o → o.Valid
  | .obj data, o, h => by
      rw [fromDict] at h
      obtain ⟨witnesses, hwitnesses, h⟩ := Except.bind_eq_ok.mp h
      obtain ⟨args, -, h⟩ := Except.bind_eq_ok.mp h
      exact construct_valid h (witnessesIn_valid data hwitnesses)
  | .null, _, h | .bool _, _, h | .num _, _, h | .str _, _, h | .arr _, _, h => by
      rw [fromDict] at h
      · cases h
      · intro _ heq
        cases heq

theorem witnessesIn_valid : (data : Data) → {ws : List WireObservation} →
    witnessesIn data = .ok ws → ∀ w ∈ ws, w.Valid
  | [], ws, h => by
      rw [witnessesIn] at h
      cases h
      exact List.forall_mem_nil _
  | (k, v) :: data, ws, h => by
      rw [witnessesIn] at h
      split at h
      · exact witnessesOf_valid v h
      · exact witnessesIn_valid data h

theorem witnessesOf_valid : (v : Value) → {ws : List WireObservation} →
    witnessesOf v = .ok ws → ∀ w ∈ ws, w.Valid
  | .arr items, ws, h => by
      rw [witnessesOf] at h
      exact fromDicts_valid items h
  | .str s, ws, h => by
      rw [witnessesOf] at h
      split at h
      · cases h
        exact List.forall_mem_nil _
      · cases h
  | .obj fields, ws, h => by
      rw [witnessesOf] at h
      split at h
      · cases h
        exact List.forall_mem_nil _
      · cases h
  | .null, _, h | .bool _, _, h | .num _, _, h => by
      rw [witnessesOf] at h
      · cases h
      all_goals
        intro _ heq
        cases heq

theorem fromDicts_valid : (vs : List Value) → {ws : List WireObservation} →
    fromDicts vs = .ok ws → ∀ w ∈ ws, w.Valid
  | [], ws, h => by
      rw [fromDicts] at h
      cases h
      exact List.forall_mem_nil _
  | v :: vs, ws, h => by
      rw [fromDicts] at h
      obtain ⟨w, hw, h⟩ := Except.bind_eq_ok.mp h
      obtain ⟨ws, hws, h⟩ := Except.bind_eq_ok.mp h
      cases h
      exact List.forall_mem_cons.mpr ⟨fromDict_valid v hw, fromDicts_valid vs hws⟩

end

theorem fromJson_valid [Json.FloatReader] {text : List Char} {o : WireObservation}
    (h : fromJson text = .ok o) : o.Valid := by
  unfold fromJson at h
  split at h
  · exact fromDict_valid _ h
  · cases h

/-! ## Tags -/

section Tags

/-- The set of some strings is a list of strings, each once. -/
theorem frozenset_strings (l : List String) :
    ∃ m : List String, m.Nodup ∧ frozenset (l.map .str) = m.map .str ∧ ∀ s ∈ m, s ∈ l := by
  induction l with
  | nil => exact ⟨[], List.nodup_nil, rfl, fun _ h => h⟩
  | cons a l ih =>
      obtain ⟨m, hm, heq, hsub⟩ := ih
      refine ⟨a :: m.filter (a ≠ ·), ?_, ?_, ?_⟩
      · refine List.nodup_cons.mpr ⟨?_, hm.filter _⟩
        simp
      · rw [List.map_cons, frozenset, heq, List.filter_map, List.map_cons]
        congr 2
        refine List.filter_congr fun s _ => ?_
        simp [Value.eq_str]
      · intro s hs
        rcases List.mem_cons.mp hs with rfl | hs
        · exact List.mem_cons_self
        · exact List.mem_cons_of_mem _ (hsub s (List.mem_filter.mp hs).1)

theorem frozenset_of_nodup {l : List String} (h : l.Nodup) : frozenset (l.map .str) = l.map .str := by
  induction l with
  | nil => rfl
  | cons a l ih =>
      obtain ⟨hnot, hrest⟩ := List.nodup_cons.mp h
      rw [List.map_cons, frozenset, ih hrest, List.filter_eq_self.mpr]
      intro v hv
      obtain ⟨s, hs, rfl⟩ := List.mem_map.mp hv
      rw [Value.eq_str]
      have hne : a ≠ s := fun heq => hnot (heq ▸ hs)
      simp [hne]

theorem sorted_strings (l : List String) :
    ∃ m : List String, m.Perm l ∧ sorted (l.map .str) = .ok (m.map .str) := by
  unfold sorted
  by_cases hshort : (l.map Value.str).length < 2
  · exact ⟨l, List.Perm.refl _, if_pos hshort⟩
  · refine ⟨l.mergeSort fun s t => s ≤ t, List.mergeSort_perm _ _, ?_⟩
    have hstrings : Value.str? ∘ Value.str = some := rfl
    rw [if_neg hshort, if_pos (by simp [Value.str?]), List.filterMap_map, hstrings,
      List.filterMap_some]

theorem sameElements_of_perm {l m : List String} (h : l.Perm m) :
    sameElements (l.map .str) (m.map .str) = true := by
  simp only [sameElements, List.all_map, List.any_map, Bool.and_eq_true, List.all_eq_true,
    List.any_eq_true, Function.comp_apply, Value.eq_str, decide_eq_true_eq]
  exact ⟨fun s hs => ⟨s, h.mem_iff.mp hs, rfl⟩, fun s hs => ⟨s, h.mem_iff.mpr hs, rfl⟩⟩

end Tags

/-! ## The text -/

mutual

theorem toJson_freeze : (v : Value) → (freeze v).toJson = v
  | .null => rfl
  | .bool _ => rfl
  | .num _ => rfl
  | .str _ => rfl
  | .arr items => by rw [freeze, Frozen.toJson, toJsonItems_freeze items]
  | .obj fields => by rw [freeze, Frozen.toJson, toJsonFields_freeze fields]

theorem toJsonItems_freeze : (vs : List Value) → Frozen.toJsonItems (freezeItems vs) = vs
  | [] => rfl
  | v :: vs => by rw [freezeItems, Frozen.toJsonItems, toJson_freeze v, toJsonItems_freeze vs]

theorem toJsonFields_freeze : (fs : List (String × Value)) →
    Frozen.toJsonFields (freezeFields fs) = fs
  | [] => rfl
  | (k, v) :: fs => by
      rw [freezeFields, Frozen.toJsonFields, toJson_freeze v, toJsonFields_freeze fs]

end

/-- The entries that `_to_dict` writes. -/
def entries (f : WireFields Value) (witnesses : List Value) : Data :=
  [("peer_id", f.peerId), ("epoch", f.epoch), ("timestamp", f.timestamp),
    ("observer_id", f.observerId), ("sequence", f.sequence),
    ("observer_provenance", f.observerProvenance),
    ("observation_type", .str f.observationType.value),
    ("direct_status", .str f.directStatus.value), ("endpoint", f.endpoint),
    ("endpoint_epoch", f.endpointEpoch), ("last_heartbeat_timestamp", f.lastHeartbeatTimestamp),
    ("last_probe_timestamp", f.lastProbeTimestamp), ("probe_latency_ms", f.probeLatencyMs),
    ("route", .str f.route.value), ("probe_result", f.probeResult), ("relay_proof", f.relayProof),
    ("proof_score", f.proofScore), ("freshness_score", f.freshnessScore),
    ("witness_agreement", f.witnessAgreement), ("witness_disagreement", f.witnessDisagreement),
    ("witness_set", .arr witnesses), ("backend_caps", .arr f.backendCaps),
    ("backend_state", ofOption (fun s => .str s.value) f.backendState),
    ("backend_state_timestamp", f.backendStateTimestamp), ("ttl_seconds", f.ttlSeconds),
    ("tags", .arr f.tags), ("notes", f.notes), ("source_id", f.sourceId),
    ("chain_depth", f.chainDepth)]

theorem member_observationType (a : ObservationType) :
    member [.reachable, .unreachable] ObservationType.value (.str a.value) = .ok a := by
  cases a <;> rfl

theorem member_directStatus (a : DirectStatus) :
    member [.reachable, .timeout, .unreachable, .stale, .suspect, .unknown, .degraded]
      DirectStatus.value (.str a.value) = .ok a := by
  cases a <;> rfl

theorem member_route (a : Route) :
    member [.direct, .relay, .discovered, .staticSeed, .passivelyLearned, .unknown] Route.value
      (.str a.value) = .ok a := by
  cases a <;> rfl

theorem backendStateOf_entries (f : WireFields Value) (witnesses : List Value) :
    backendStateOf (entries f witnesses) = .ok f.backendState := by
  unfold backendStateOf
  have hstored : optional (entries f witnesses) "backend_state" .null =
      ofOption (fun s => .str s.value) f.backendState := rfl
  rw [hstored]
  cases f.backendState with
  | none => rfl
  | some state => cases state <;> rfl

def IsStr (v : Value) : Prop := ∃ s, v = .str s

theorem elements_strings {tags : List Value} (h : ∀ v ∈ tags, IsStr v) :
    elements (.arr tags) = .ok tags := by
  have hall : tags.all hashable = true := by
    rw [List.all_eq_true]
    intro v hv
    obtain ⟨s, rfl⟩ := h v hv
    rfl
  refine Except.bind_eq_ok.mpr ⟨tags, rfl, ?_⟩
  rw [hall]
  rfl

/-- The arguments are read back from their entries. -/
theorem argsOf_entries {f : WireFields Value} (witnesses : List Value) (h : ∀ v ∈ f.tags, IsStr v) :
    argsOf (entries f witnesses) = .ok f := by
  unfold argsOf
  refine Except.bind_eq_ok.mpr ⟨f.peerId, rfl, ?_⟩
  refine Except.bind_eq_ok.mpr ⟨f.epoch, rfl, ?_⟩
  refine Except.bind_eq_ok.mpr ⟨f.timestamp, rfl, ?_⟩
  refine Except.bind_eq_ok.mpr ⟨f.observerId, rfl, ?_⟩
  refine Except.bind_eq_ok.mpr ⟨.str f.observationType.value, rfl, ?_⟩
  refine Except.bind_eq_ok.mpr ⟨f.observationType, member_observationType _, ?_⟩
  refine Except.bind_eq_ok.mpr ⟨.str f.directStatus.value, rfl, ?_⟩
  refine Except.bind_eq_ok.mpr ⟨f.directStatus, member_directStatus _, ?_⟩
  refine Except.bind_eq_ok.mpr ⟨f.endpoint, rfl, ?_⟩
  refine Except.bind_eq_ok.mpr ⟨f.endpointEpoch, rfl, ?_⟩
  refine Except.bind_eq_ok.mpr ⟨f.route, member_route _, ?_⟩
  refine Except.bind_eq_ok.mpr ⟨f.proofScore, rfl, ?_⟩
  refine Except.bind_eq_ok.mpr ⟨f.freshnessScore, rfl, ?_⟩
  refine Except.bind_eq_ok.mpr ⟨f.witnessAgreement, rfl, ?_⟩
  refine Except.bind_eq_ok.mpr ⟨f.witnessDisagreement, rfl, ?_⟩
  refine Except.bind_eq_ok.mpr ⟨f.backendCaps, rfl, ?_⟩
  refine Except.bind_eq_ok.mpr ⟨f.backendState, backendStateOf_entries f witnesses, ?_⟩
  exact Except.bind_eq_ok.mpr ⟨f.tags, elements_strings h, rfl⟩

theorem witnessesIn_entries (f : WireFields Value) (witnesses : List Value) :
    witnessesIn (entries f witnesses) = fromDicts witnesses := by
  unfold entries
  iterate 20 rw [witnessesIn, if_neg (by decide)]
  rw [witnessesIn, if_pos rfl, witnessesOf]

/-! ## Annotated observations -/

section Annotations

def IsInt (v : Value) : Prop := ∃ n, v = .num (.int n)

variable [Json.FloatReader]

/-- A number that Python has. -/
def IsFloat (v : Value) : Prop := ∃ n : Number, v = .num n ∧ n.read = n

def IsOptional (P : Value → Prop) (v : Value) : Prop := v = .null ∨ P v

/-- Arguments of the annotated types, with a `probe_result` of JSON. -/
structure Annotated (args : WireFields Value) : Prop where
  peerId : IsStr args.peerId
  epoch : IsInt args.epoch
  timestamp : IsFloat args.timestamp
  observerId : IsStr args.observerId
  sequence : IsInt args.sequence
  observerProvenance : IsStr args.observerProvenance
  endpoint : IsStr args.endpoint
  endpointEpoch : IsInt args.endpointEpoch
  lastHeartbeatTimestamp : IsOptional IsFloat args.lastHeartbeatTimestamp
  lastProbeTimestamp : IsOptional IsFloat args.lastProbeTimestamp
  probeLatencyMs : IsOptional IsFloat args.probeLatencyMs
  probeResult : args.probeResult = .null ∨
    ∃ fields, args.probeResult = .obj fields ∧ args.probeResult.Finite
  relayProof : IsOptional IsStr args.relayProof
  proofScore : IsFloat args.proofScore
  freshnessScore : IsFloat args.freshnessScore
  witnessAgreement : IsInt args.witnessAgreement
  witnessDisagreement : IsInt args.witnessDisagreement
  backendCaps : ∀ v ∈ args.backendCaps, IsStr v
  backendStateTimestamp : IsOptional IsFloat args.backendStateTimestamp
  ttlSeconds : IsOptional IsInt args.ttlSeconds
  tags : ∀ v ∈ args.tags, IsStr v
  notes : IsStr args.notes
  sourceId : IsOptional IsStr args.sourceId
  chainDepth : IsInt args.chainDepth

/-- No time is `nan`. -/
structure Timed {π : Type} (f : WireFields π) : Prop where
  timestamp : f.timestamp ≠ .num .nan
  lastHeartbeatTimestamp : f.lastHeartbeatTimestamp ≠ .num .nan
  lastProbeTimestamp : f.lastProbeTimestamp ≠ .num .nan
  probeLatencyMs : f.probeLatencyMs ≠ .num .nan
  backendStateTimestamp : f.backendStateTimestamp ≠ .num .nan

/-- The constructor has returned it for annotated arguments, and so all its witnesses. -/
inductive WireObservation.Built : WireObservation → Prop
  | intro {args : WireFields Value} {ws : List WireObservation} {o : WireObservation}
      (hargs : Annotated args) (hws : ∀ w ∈ ws, w.Built) (h : construct args ws = .ok o) : Built o

/-- No time is `nan`, here and in all witnesses. -/
inductive WireObservation.NoNan : WireObservation → Prop
  | node {f : WireFields Frozen} {ws : List WireObservation} (hf : Timed f)
      (hws : ∀ w ∈ ws, w.NoNan) : NoNan (.node f ws)

/-- A value that the text carries, and that is equal to itself. -/
structure Carried (v : Value) : Prop where
  distinct : v.DistinctKeys
  reads : v.read = v
  same : v.eq v = true

theorem IsStr.carried {v : Value} (h : IsStr v) : Carried v := by
  obtain ⟨s, rfl⟩ := h
  exact ⟨.str s, rfl, by rw [Value.eq_str]; simp⟩

theorem IsFloat.carried {v : Value} (h : IsFloat v) (hnan : v ≠ .num .nan) : Carried v := by
  obtain ⟨n, rfl, hread⟩ := h
  refine ⟨.num n, by rw [Value.read, hread], ?_⟩
  simpa [Value.eq, Value.number?] using Number.eq_self (n := n) (by simpa using hnan)

theorem IsInt.carried {v : Value} (h : IsInt v) : Carried v := by
  obtain ⟨n, rfl⟩ := h
  exact IsFloat.carried ⟨_, rfl, rfl⟩ (by simp)

theorem carried_null : Carried .null := ⟨.null, rfl, rfl⟩

theorem IsOptional.carried {P : Value → Prop} {v : Value} (h : IsOptional P v)
    (hP : P v → Carried v) : Carried v := by
  rcases h with rfl | h
  · exact carried_null
  · exact hP h

theorem carried_finite {v : Value} (h : v.Finite) : Carried v :=
  ⟨h.distinctKeys, h.read, h.eq_self⟩

/-! ## The round trip -/

/-- The fields that hold a value as it is. -/
def scalars {π : Type} (f : WireFields π) : List Value :=
  [f.peerId, f.epoch, f.timestamp, f.observerId, f.sequence, f.observerProvenance, f.endpoint,
    f.endpointEpoch, f.lastHeartbeatTimestamp, f.lastProbeTimestamp, f.probeLatencyMs, f.relayProof,
    f.proofScore, f.freshnessScore, f.witnessAgreement, f.witnessDisagreement,
    f.backendStateTimestamp, f.ttlSeconds, f.notes, f.sourceId, f.chainDepth]

omit [Json.FloatReader] in
theorem validateBound_ne_nan {field : String} {v : Value} (h : validateBound field v = .ok ()) :
    v ≠ .num .nan := by
  rintro rfl
  cases h

theorem Annotated.scalars {args : WireFields Value} (h : Annotated args) (htimed : Timed args)
    (hproof : args.proofScore ≠ .num .nan) (hfreshness : args.freshnessScore ≠ .num .nan) :
    ∀ v ∈ scalars args, Carried v := by
  simp only [Membership.scalars, List.forall_mem_cons]
  exact ⟨h.peerId.carried, h.epoch.carried, h.timestamp.carried htimed.timestamp,
    h.observerId.carried, h.sequence.carried, h.observerProvenance.carried, h.endpoint.carried,
    h.endpointEpoch.carried,
    h.lastHeartbeatTimestamp.carried fun hv => hv.carried htimed.lastHeartbeatTimestamp,
    h.lastProbeTimestamp.carried fun hv => hv.carried htimed.lastProbeTimestamp,
    h.probeLatencyMs.carried fun hv => hv.carried htimed.probeLatencyMs,
    h.relayProof.carried IsStr.carried, h.proofScore.carried hproof,
    h.freshnessScore.carried hfreshness, h.witnessAgreement.carried, h.witnessDisagreement.carried,
    h.backendStateTimestamp.carried fun hv => hv.carried htimed.backendStateTimestamp,
    h.ttlSeconds.carried IsInt.carried, h.notes.carried, h.sourceId.carried IsStr.carried,
    h.chainDepth.carried, List.forall_mem_nil _⟩

theorem Annotated.probe {args : WireFields Value} (h : Annotated args) : Carried args.probeResult := by
  rcases h.probeResult with hnull | ⟨fields, -, hfinite⟩
  · rw [hnull]
    exact carried_null
  · exact carried_finite hfinite

/-- The text carries the value. -/
structure Textual (v : Value) : Prop where
  distinct : v.DistinctKeys
  reads : v.read = v

theorem Carried.textual {v : Value} (h : Carried v) : Textual v := ⟨h.distinct, h.reads⟩

theorem Textual.arr {vs : List Value} (h : ∀ v ∈ vs, Textual v) : Textual (.arr vs) := by
  refine ⟨.arr fun v hv => (h v hv).distinct, ?_⟩
  rw [Value.read, Json.readItems_eq_map, List.map_congr_left fun v hv => (h v hv).reads, List.map_id']

theorem Textual.obj {fs : List (String × Value)} (hkeys : (fs.map Prod.fst).Nodup)
    (h : ∀ e ∈ fs, Textual e.2) : Textual (.obj fs) := by
  refine ⟨.obj hkeys fun e he => (h e he).distinct, ?_⟩
  rw [Value.read, Json.readFields_eq_map, List.map_congr_left fun e he => by rw [(h e he).reads]]
  simp

theorem textual_str (s : String) : Textual (.str s) := ⟨.str s, rfl⟩

theorem textual_entries {f : WireFields Value} {witnesses : List Value}
    (hscalars : ∀ v ∈ scalars f, Textual v) (hprobe : Textual f.probeResult)
    (hcaps : ∀ v ∈ f.backendCaps, Textual v) (htags : ∀ v ∈ f.tags, Textual v)
    (hwitnesses : ∀ v ∈ witnesses, Textual v) : Textual (.obj (entries f witnesses)) := by
  have hstate : Textual (ofOption (fun s => .str s.value) f.backendState) := by
    cases f.backendState with
    | none => exact carried_null.textual
    | some state => exact textual_str _
  simp only [scalars, List.forall_mem_cons] at hscalars
  obtain ⟨hpeerId, hepoch, htimestamp, hobserverId, hsequence, hprovenance, hendpoint,
    hendpointEpoch, hheartbeat, hlastProbe, hlatency, hrelayProof, hproofScore, hfreshness, hagreement,
    hdisagreement, hstateTimestamp, httl, hnotes, hsourceId, hchainDepth, -⟩ := hscalars
  refine .obj (by simp [entries]) ?_
  simp only [entries, List.forall_mem_cons]
  exact ⟨hpeerId, hepoch, htimestamp, hobserverId, hsequence, hprovenance, textual_str _,
    textual_str _, hendpoint, hendpointEpoch, hheartbeat, hlastProbe, hlatency, textual_str _,
    hprobe, hrelayProof, hproofScore, hfreshness, hagreement, hdisagreement, .arr hwitnesses,
    .arr hcaps, hstate, hstateTimestamp, httl, .arr htags, hnotes, hsourceId, hchainDepth,
    List.forall_mem_nil _⟩

omit [Json.FloatReader] in
/-- Fields that differ in their tags only are equal. -/
theorem eq_of_tags {f : WireFields Frozen} {tags : List Value} (hscalars : ∀ v ∈ scalars f, v.eq v = true)
    (hprobe : f.probeResult.eq f.probeResult = true)
    (hcaps : Json.eqItems f.backendCaps f.backendCaps = true)
    (htags : sameElements tags f.tags = true) : WireFields.eq { f with tags } f = true := by
  simp only [scalars, List.forall_mem_cons] at hscalars
  obtain ⟨hpeerId, hepoch, htimestamp, hobserverId, hsequence, hprovenance, hendpoint,
    hendpointEpoch, hheartbeat, hlastProbe, hlatency, hrelayProof, hproofScore, hfreshness, hagreement,
    hdisagreement, hstateTimestamp, httl, hnotes, hsourceId, hchainDepth, -⟩ := hscalars
  simp only [WireFields.eq, hpeerId, hepoch, htimestamp, hobserverId, hsequence, hprovenance, hendpoint,
    hendpointEpoch, hheartbeat, hlastProbe, hlatency, hrelayProof, hproofScore, hfreshness, hagreement,
    hdisagreement, hstateTimestamp, httl, hnotes, hsourceId, hchainDepth, hprobe, hcaps, htags,
    decide_true, Bool.and_self]

/-- What the round trip gives for one observation. -/
structure RoundTrips (o : WireObservation) (d : Value) (o' : WireObservation) : Prop where
  encodes : o.toDict = .ok d
  textual : Textual d
  decodes : fromDict d = .ok o'
  same : o'.eq o = true
  depth : o'.depth = o.depth

theorem roundTrips_all {ws : List WireObservation} (h : ∀ w ∈ ws, ∃ d w', RoundTrips w d w') :
    ∃ ds ws', WireObservation.toDicts ws = .ok ds ∧ (∀ d ∈ ds, Textual d) ∧ fromDicts ds = .ok ws' ∧
      WireObservation.eqAll ws' ws = true ∧
      WireObservation.maxDepth ws' = WireObservation.maxDepth ws := by
  induction ws with
  | nil => exact ⟨[], [], rfl, List.forall_mem_nil _, rfl, rfl, rfl⟩
  | cons w ws ih =>
      obtain ⟨d, w', hw⟩ := h w List.mem_cons_self
      obtain ⟨ds, ws', hdicts, htextual, hback, hsame, hdepth⟩ :=
        ih fun v hv => h v (List.mem_cons_of_mem _ hv)
      refine ⟨d :: ds, w' :: ws', ?_, List.forall_mem_cons.mpr ⟨hw.textual, htextual⟩, ?_, ?_, ?_⟩
      · rw [WireObservation.toDicts, hw.encodes, hdicts]
        rfl
      · rw [fromDicts, hw.decodes, hback]
        rfl
      · rw [WireObservation.eqAll, hw.same, hsame]
        rfl
      · rw [WireObservation.maxDepth, WireObservation.maxDepth, hw.depth, hdepth]

omit [Json.FloatReader] in
/-- A list of strings is one of Lean's strings. -/
theorem exists_strings {l : List Value} (h : ∀ v ∈ l, IsStr v) :
    ∃ m : List String, l = m.map .str := by
  induction l with
  | nil => exact ⟨[], rfl⟩
  | cons v l ih =>
      obtain ⟨hv, hl⟩ := List.forall_mem_cons.mp h
      obtain ⟨s, rfl⟩ := hv
      obtain ⟨m, rfl⟩ := ih hl
      exact ⟨s :: m, rfl⟩

theorem WireObservation.Built.roundTrips {o : WireObservation} (h : o.Built) (hnan : o.NoNan) :
    ∃ d o', RoundTrips o d o' := by
  induction h with
  | @intro args ws o hargs hbuilt hconstruct ih =>
      obtain ⟨hproof, hfreshness, hdepth, hchain, rfl⟩ := construct_eq_ok.mp hconstruct
      obtain ⟨htimed, hrest⟩ : Timed args ∧ ∀ w ∈ ws, w.NoNan := by
        cases hnan with
        | node hf hws => exact ⟨⟨hf.1, hf.2, hf.3, hf.4, hf.5⟩, hws⟩
      obtain ⟨ds, ws', hdicts, htextual, hback, hsame, hmaxDepth⟩ :=
        roundTrips_all fun w hw => ih w hw (hrest w hw)
      have hscalars := hargs.scalars htimed (validateBound_ne_nan hproof)
        (validateBound_ne_nan hfreshness)
      -- the tags are sorted in the text and a set again behind it
      obtain ⟨given, hgiven⟩ := exists_strings hargs.tags
      obtain ⟨kept, hnodup, hkept, -⟩ := frozenset_strings given
      obtain ⟨written, hperm, hsorted⟩ := sorted_strings kept
      have hwritten : frozenset (written.map .str) = written.map .str :=
        frozenset_of_nodup (hperm.nodup_iff.mpr hnodup)
      let sent : WireFields Value := { args with tags := written.map .str }
      have hstrs : ∀ v ∈ sent.tags, IsStr v := by
        intro v hv
        obtain ⟨s, -, rfl⟩ := List.mem_map.mp hv
        exact ⟨s, rfl⟩
      refine ⟨.obj (entries sent ds), .node
        { args with probeResult := freeze args.probeResult, tags := written.map .str } ws', ?_⟩
      refine ⟨?_, ?_, ?_, ?_, ?_⟩
      · rw [WireObservation.toDict, hdicts, hgiven, hkept, hsorted]
        dsimp only
        rw [toJson_freeze]
        rfl
      · exact textual_entries (fun v hv => (hscalars v hv).textual) hargs.probe.textual
          (fun v hv => (hargs.backendCaps v hv).carried.textual)
          (fun v hv => (hstrs v hv).carried.textual) htextual
      · rw [fromDict, witnessesIn_entries, hback, argsOf_entries ds hstrs]
        refine construct_eq_ok.mpr ⟨hproof, hfreshness, ?_, hchain, ?_⟩
        · rw [validateWitnessDepth_eq_ok, hmaxDepth]
          exact validateWitnessDepth_eq_ok.mp hdepth
        · rw [hwritten]
      · rw [WireObservation.eq, hsame, Bool.and_true]
        refine eq_of_tags (f := { args with
            probeResult := freeze args.probeResult, tags := frozenset args.tags })
          (fun v hv => (hscalars v hv).same) ?_ ?_ ?_
        · rw [Frozen.eq, toJson_freeze]
          exact hargs.probe.same
        · exact Json.eqItems_self fun v hv => (hargs.backendCaps v hv).carried.same
        · rw [hgiven, hkept]
          exact sameElements_of_perm hperm
      · rw [WireObservation.depth, WireObservation.depth, hmaxDepth]

end Annotations

/-! ## The codec -/

/-- An observation that can be built, with a `probe_result` of JSON and no `nan` among its times,
is decoded from its text; and nothing that is decoded exceeds a limit. -/
theorem fromJson_toJson [Json.FloatReader] :
    (∀ o : WireObservation, o.Built → o.NoNan →
      ∃ text o', o.toJson = .ok text ∧ fromJson text = .ok o' ∧ o'.eq o = true) ∧
    ∀ (text : List Char) (o : WireObservation), fromJson text = .ok o → o.Valid := by
  refine ⟨fun o hbuilt hnan => ?_, fun text o h => fromJson_valid h⟩
  obtain ⟨d, o', htrip⟩ := hbuilt.roundTrips hnan
  refine ⟨Json.dumps Json.spaced d, o', ?_, ?_, htrip.same⟩
  · rw [WireObservation.toJson, htrip.encodes]
    rfl
  · rw [fromJson, Json.loads_dumps Json.spaced_readable htrip.textual.distinct htrip.textual.reads]
    exact htrip.decodes

section Samples

local instance literalFloats : Json.FloatReader := ⟨.float⟩

def sampleArgs (timestamp : Number) : WireFields Value where
  peerId := .str "p"
  epoch := .num (.int 1)
  timestamp := .num timestamp
  observerId := .str "o"
  sequence := .num (.int 0)
  observerProvenance := .str ""
  observationType := .reachable
  directStatus := .reachable
  endpoint := .str "e"
  endpointEpoch := .num (.int 1)
  lastHeartbeatTimestamp := .null
  lastProbeTimestamp := .null
  probeLatencyMs := .null
  route := .direct
  probeResult := .obj [("ports", .arr [.num (.int 9000), .null])]
  relayProof := .null
  proofScore := .num (.int 1)
  freshnessScore := .num (.int 1)
  witnessAgreement := .num (.int 0)
  witnessDisagreement := .num (.int 0)
  backendCaps := [.str "ollama"]
  backendState := some .macDual
  backendStateTimestamp := .null
  ttlSeconds := .num (.int 60)
  tags := [.str "lan"]
  notes := .str ""
  sourceId := .null
  chainDepth := .num (.int 0)

def sampleObservation (timestamp : Number) : WireObservation :=
  .node { sampleArgs timestamp with
    probeResult := freeze (sampleArgs timestamp).probeResult } []

theorem sampleArgs_annotated {timestamp : Number} (h : timestamp.read = timestamp) :
    Annotated (sampleArgs timestamp) := by
  have hports : (sampleArgs timestamp).probeResult.Finite := by
    refine .obj (by simp) (List.forall_mem_singleton.mpr (.arr ?_))
    exact List.forall_mem_cons.mpr ⟨.num ⟨rfl, rfl⟩, List.forall_mem_singleton.mpr .null⟩
  exact ⟨⟨_, rfl⟩, ⟨_, rfl⟩, ⟨_, rfl, h⟩, ⟨_, rfl⟩, ⟨_, rfl⟩, ⟨_, rfl⟩, ⟨_, rfl⟩, ⟨_, rfl⟩, .inl rfl,
    .inl rfl, .inl rfl, .inr ⟨_, rfl, hports⟩, .inl rfl, ⟨_, rfl, rfl⟩, ⟨_, rfl, rfl⟩, ⟨_, rfl⟩,
    ⟨_, rfl⟩, List.forall_mem_singleton.mpr ⟨_, rfl⟩, .inl rfl, .inr ⟨_, rfl⟩,
    List.forall_mem_singleton.mpr ⟨_, rfl⟩, ⟨_, rfl⟩, .inl rfl, ⟨_, rfl⟩⟩

theorem sampleObservation_built {timestamp : Number} (h : timestamp.read = timestamp) :
    (sampleObservation timestamp).Built :=
  .intro (sampleArgs_annotated h) (List.forall_mem_nil _) rfl

/-- The sample with witnesses. -/
def witnessedBy (timestamp : ℤ) (ws : List WireObservation) : WireObservation :=
  .node { sampleArgs (.int timestamp) with
    probeResult := freeze (sampleArgs (.int timestamp)).probeResult } ws

theorem witnessedBy_noNan (timestamp : ℤ) {ws : List WireObservation} (hws : ∀ w ∈ ws, w.NoNan) :
    (witnessedBy timestamp ws).NoNan :=
  .node ⟨by simp [sampleArgs], by simp [sampleArgs], by simp [sampleArgs], by simp [sampleArgs],
    by simp [sampleArgs]⟩ hws

theorem witnessedBy_built {timestamp : ℤ} {ws : List WireObservation} (hws : ∀ w ∈ ws, w.Built)
    (h : construct (sampleArgs (.int timestamp)) ws = .ok (witnessedBy timestamp ws)) :
    (witnessedBy timestamp ws).Built :=
  .intro (sampleArgs_annotated rfl) hws h

theorem fromJson_toJson_sample : ∃ text o',
    (witnessedBy 5 [witnessedBy 3 [], witnessedBy 4 []]).toJson = .ok text ∧
    fromJson text = .ok o' ∧ o'.eq (witnessedBy 5 [witnessedBy 3 [], witnessedBy 4 []]) = true := by
  have halone : ∀ n, (witnessedBy n []).Built ∧ (witnessedBy n []).NoNan := fun n =>
    ⟨witnessedBy_built (List.forall_mem_nil _) rfl, witnessedBy_noNan n (List.forall_mem_nil _)⟩
  have hwitnesses : ∀ w ∈ [witnessedBy 3 [], witnessedBy 4 []], w.Built ∧ w.NoNan :=
    List.forall_mem_cons.mpr ⟨halone 3, List.forall_mem_singleton.mpr (halone 4)⟩
  exact fromJson_toJson.1 _ (witnessedBy_built (fun w hw => (hwitnesses w hw).1) rfl)
    (witnessedBy_noNan 5 fun w hw => (hwitnesses w hw).2)

/-- `nan` is decoded as `nan`, which is no longer equal to the one that was encoded. -/
theorem not_roundTrip_nan : ¬∀ o : WireObservation, o.Built →
    ∃ text o', o.toJson = .ok text ∧ fromJson text = .ok o' ∧ o'.eq o = true := by
  intro h
  have hbuilt : (sampleObservation .nan).Built := sampleObservation_built rfl
  obtain ⟨text, o', htext, hback, hsame⟩ := h _ hbuilt
  have hrun : (((sampleObservation .nan).toJson.toOption.bind fun text =>
      (fromJson text).toOption).map fun o' => o'.eq (sampleObservation .nan)) = some false := by
    decide +kernel
  rw [htext] at hrun
  simp only [Except.toOption, Option.bind_some, hback, Option.map_some, hsame] at hrun
  cases hrun

end Samples

end Perpetua.Membership

import Perpetua.Gossip.LanBridge

/-!
# Agreement of the gossip replicas

A forwarded payload carries its uuid as a field, and the endpoint passes the uuid beside it as well,
so the field is not stripped: a delivery that adds a row stores the marker.
-/

namespace Perpetua.Gossip

open GossipBus

variable {τ ι : Type}

/-! ## Agreement -/

/-- Every node has a uuid once, the nodes agree on what stands under it, and no stored payload has the
transport marker. -/
structure Agrees (s : Lan τ ι) : Prop where
  unique : ∀ n, ((s.log n).map (·.eventUuid)).Nodup
  agree : ∀ n n', ∀ r ∈ s.log n, ∀ r' ∈ s.log n', r.eventUuid = r'.eventUuid →
    r.eventType = r'.eventType ∧ r.payload = r'.payload
  unmarked : ∀ n, ∀ r ∈ s.log n, Entries.get? r.payload "_gossip_uuid" = none

/-- A node has no row with a uuid. -/
def Lacks (log : GossipLog τ) (uuid : String) : Prop := ∀ r ∈ log, r.eventUuid ≠ uuid

section

variable [Redaction.UnicodeTables]

theorem insertEvent_of_lacks {log : GossipLog τ} {uuid : String} (h : Lacks log uuid) (ts : τ)
    (eventType : String) (payload : Payload) :
    (insertEvent uuid ts eventType payload log).1 =
      log ++ [⟨uuid, ts, eventType, durablePayload payload⟩] := by
  have hany : log.any (·.eventUuid = uuid) = false := by
    simpa [List.any_eq_false, Lacks] using h
  rw [insertEvent, hany]
  rfl

theorem insertEvent_of_not_lacks {log : GossipLog τ} {uuid : String} (h : ¬ Lacks log uuid) (ts : τ)
    (eventType : String) (payload : Payload) :
    (insertEvent uuid ts eventType payload log).1 = log := by
  have hany : log.any (·.eventUuid = uuid) = true := by
    simp only [Lacks, not_forall, not_not] at h
    obtain ⟨r, hr, huuid⟩ := h
    exact List.any_eq_true.mpr ⟨r, hr, decide_eq_true huuid⟩
  rw [insertEvent, if_pos hany]

end

/-- Sending POSTs changes no log. -/
theorem agrees_posts {s : Lan τ ι} {posts : List (Post ι)} :
    Agrees { s with inFlight := posts } ↔ Agrees s :=
  ⟨fun h => ⟨h.unique, h.agree, h.unmarked⟩, fun h => ⟨h.unique, h.agree, h.unmarked⟩⟩

theorem agrees_start : Agrees ({} : Lan τ ι) where
  unique := fun _ => List.nodup_nil
  agree := fun _ _ r hr => by cases hr
  unmarked := fun _ r hr => by cases hr

variable [DecidableEq ι]

/-- A row that a node adds under a uuid that it lacks keeps the agreement exactly if it is not marked
and is the same as those that other nodes have under the uuid. -/
theorem agrees_add_iff {s : Lan τ ι} (h : Agrees s) {node : ι} {row : GossipRow τ}
    {posts : List (Post ι)} (hlacks : Lacks (s.log node) row.eventUuid) :
    Agrees { log := Function.update s.log node (s.log node ++ [row]), inFlight := posts } ↔
      Entries.get? row.payload "_gossip_uuid" = none ∧
        ∀ n, ∀ r ∈ s.log n, r.eventUuid = row.eventUuid →
          r.eventType = row.eventType ∧ r.payload = row.payload := by
  have hmem : ∀ n r, r ∈ Function.update s.log node (s.log node ++ [row]) n ↔
      r ∈ s.log n ∨ n = node ∧ r = row := by
    intro n r
    by_cases hn : n = node
    · subst hn
      simp
    · simp [hn]
  constructor
  · intro hafter
    refine ⟨hafter.unmarked node row ((hmem _ _).mpr (Or.inr ⟨rfl, rfl⟩)), fun n r hr huuid => ?_⟩
    exact hafter.agree n node r ((hmem _ _).mpr (Or.inl hr)) row
      ((hmem _ _).mpr (Or.inr ⟨rfl, rfl⟩)) huuid
  · rintro ⟨hunmarked, hsame⟩
    constructor
    · intro n
      by_cases hn : n = node
      · subst hn
        dsimp only
        rw [Function.update_self, List.map_append]
        refine List.nodup_append.mpr ⟨h.unique n, List.nodup_singleton _, ?_⟩
        rintro uuid huuid uuid' huuid' rfl
        obtain ⟨r, hr, rfl⟩ := List.mem_map.mp huuid
        exact hlacks r hr (List.mem_singleton.mp huuid')
      · dsimp only
        rw [Function.update_of_ne hn]
        exact h.unique n
    · intro n n' r hr r' hr' huuid
      rcases (hmem n r).mp hr with hold | ⟨-, rfl⟩
      · rcases (hmem n' r').mp hr' with hold' | ⟨-, rfl⟩
        · exact h.agree n n' r hold r' hold' huuid
        · exact hsame n r hold huuid
      · rcases (hmem n' r').mp hr' with hold' | ⟨-, rfl⟩
        · exact (hsame n' r' hold' huuid.symm).imp Eq.symm Eq.symm
        · exact ⟨rfl, rfl⟩
    · intro n r hr
      rcases (hmem n r).mp hr with hold | ⟨-, rfl⟩
      · exact h.unmarked n r hold
      · exact hunmarked

/-! ## One step -/

/-- What `_extract_forwarded_uuid` makes of the payload of a local emit. -/
def cleaned (payload : Payload) : Payload := (extractForwardedUuid payload none).1

/-- The uuid of a local emit: the one in its payload or the one it draws. -/
def emittedUuid (payload : Payload) (drawn : String) : String :=
  uuidOr (extractForwardedUuid payload none).2 drawn

theorem emittedUuid_ne_empty {payload : Payload} {drawn : String} (h : drawn ≠ "") :
    emittedUuid payload drawn ≠ "" := by
  unfold emittedUuid uuidOr
  split
  · split
    · exact h
    · rename_i hempty; exact hempty
  · exact h

/-- A payload without the marker, or with one that is taken for the uuid. -/
def Markerless (payload : Payload) : Prop :=
  ∀ v, Entries.get? payload "_gossip_uuid" = some v → ∃ uuid, uuid ≠ "" ∧ v = .str uuid

section Steps

variable [Redaction.UnicodeTables]

theorem cleaned_unmarked_iff {payload : Payload} :
    Entries.get? (durablePayload (cleaned payload)) "_gossip_uuid" = none ↔
      Markerless payload := by
  rw [get?_durablePayload, if_neg (by decide), Option.map_eq_none_iff]
  unfold cleaned extractForwardedUuid Markerless
  dsimp only
  cases hget : Entries.get? payload "_gossip_uuid" with
  | none => simp [hget]
  | some v =>
      cases v with
      | str uuid =>
          by_cases hempty : uuid = ""
          · simp [hempty, hget]
          · simp [hempty, Entries.get?_erase]
      | null => simp [hget]
      | bool b => simp [hget]
      | num n => simp [hget]
      | arr items => simp [hget]
      | obj fields => simp [hget]

/-- A step that keeps the agreement. An emit that adds a row is of a payload without a marker of its
own, and under a uuid under which no node has anything else; and a delivery adds no row. -/
def Faithful (s : Lan τ ι) : LanAction τ ι → Prop
  | .emit node eventType payload env =>
      env.access = .granted → Lacks (s.log node) (emittedUuid payload env.uuid) →
        Markerless payload ∧
          ∀ n, ∀ r ∈ s.log n, r.eventUuid = emittedUuid payload env.uuid →
            r.eventType = eventType ∧ r.payload = durablePayload (cleaned payload)
  | .deliver post env =>
      ∀ p, s.inFlight[post]? = some p → env.access = .granted → ¬ Lacks (s.log p.target) p.uuid

/-- Every POST carries its uuid in its payload. -/
def Marked (s : Lan τ ι) : Prop :=
  ∀ p ∈ s.inFlight, (Entries.get? p.payload "_gossip_uuid").isSome ∧ p.uuid ≠ ""

theorem busEmit_of_denied {eventType : String} {payload : Payload} {eventUuid : Option String}
    {env : EmitEnv τ} {log : GossipLog τ} (h : env.access ≠ .granted) :
    busEmit eventType payload eventUuid env log = none := by
  unfold busEmit
  cases haccess : env.access with
  | granted => exact absurd haccess h
  | busy => rfl
  | failed => rfl

theorem busEmit_local {eventType : String} {payload : Payload} {env : EmitEnv τ}
    {log : GossipLog τ} (h : env.access = .granted) :
    busEmit eventType payload none env log =
      some ((insertEvent (emittedUuid payload env.uuid) env.now eventType (cleaned payload) log).1,
        emittedUuid payload env.uuid) := by
  simp [busEmit, h, emittedUuid, cleaned]

theorem busEmit_forwarded {eventType : String} {payload : Payload} {uuid : String} {env : EmitEnv τ}
    {log : GossipLog τ} (h : env.access = .granted) (huuid : uuid ≠ "") :
    busEmit eventType payload (some uuid) env log =
      some ((insertEvent uuid env.now eventType payload log).1, uuid) := by
  simp [busEmit, h, extractForwardedUuid, uuidOr, huuid]

variable {peers : ι → List ι}

theorem agrees_emit_iff {s : Lan τ ι} (h : Agrees s) {node : ι} {eventType : String}
    {payload : Payload} {env : EmitEnv τ} :
    Agrees (s.step peers (.emit node eventType payload env)) ↔
      Faithful s (.emit node eventType payload env) := by
  unfold Lan.step Faithful
  dsimp only
  by_cases haccess : env.access = .granted
  · rw [busEmit_local haccess]
    dsimp only
    by_cases hlacks : Lacks (s.log node) (emittedUuid payload env.uuid)
    · rw [insertEvent_of_lacks hlacks, agrees_add_iff h hlacks, cleaned_unmarked_iff]
      exact ⟨fun hadd _ _ => hadd, fun hfaithful => hfaithful haccess hlacks⟩
    · rw [insertEvent_of_not_lacks hlacks, Function.update_eq_self]
      refine ⟨fun _ _ hlacks' => absurd hlacks' hlacks, fun _ => ?_⟩
      exact agrees_posts.mpr h
  · rw [busEmit_of_denied haccess]
    exact ⟨fun _ haccess' => absurd haccess' haccess, fun _ => h⟩

theorem agrees_deliver_iff {s : Lan τ ι} (h : Agrees s) (hmarked : Marked s) {post : ℕ}
    {env : EmitEnv τ} :
    Agrees (s.step peers (.deliver post env)) ↔ Faithful s (.deliver post env) := by
  unfold Lan.step Faithful
  dsimp only
  cases hpost : s.inFlight[post]? with
  | none =>
      constructor
      · intro _ p hp
        cases hp
      · intro _
        exact h
  | some p =>
      obtain ⟨hmarker, huuid⟩ := hmarked p (List.mem_of_getElem? hpost)
      dsimp only
      by_cases haccess : env.access = .granted
      · rw [busEmit_forwarded haccess huuid]
        dsimp only
        by_cases hlacks : Lacks (s.log p.target) p.uuid
        · rw [insertEvent_of_lacks hlacks, agrees_add_iff h hlacks]
          constructor
          · rintro ⟨hunmarked, -⟩
            rw [get?_durablePayload, if_neg (by decide), Option.map_eq_none_iff] at hunmarked
            rw [hunmarked] at hmarker
            cases hmarker
          · intro hfaithful
            exact absurd hlacks (hfaithful p rfl haccess)
        · rw [insertEvent_of_not_lacks hlacks, Function.update_eq_self]
          refine ⟨fun _ p' hp' _ => ?_, fun _ => h⟩
          rwa [← Option.some.inj hp']
      · rw [busEmit_of_denied haccess]
        exact ⟨fun _ _ _ haccess' => absurd haccess' haccess, fun _ => h⟩

theorem agrees_step_iff {s : Lan τ ι} (h : Agrees s) (hmarked : Marked s) (a : LanAction τ ι) :
    Agrees (s.step peers a) ↔ Faithful s a := by
  cases a with
  | emit node eventType payload env => exact agrees_emit_iff h
  | deliver post env => exact agrees_deliver_iff h hmarked

theorem marked_step {s : Lan τ ι} (h : Marked s) (a : LanAction τ ι) :
    Marked (s.step peers a) := by
  cases a with
  | deliver post env =>
      unfold Lan.step
      dsimp only
      split
      · exact h
      · split
        · exact h
        · exact h
  | emit node eventType payload env =>
      unfold Lan.step
      dsimp only
      by_cases haccess : env.access = .granted
      · rw [busEmit_local haccess]
        intro p hp
        rcases List.mem_append.mp hp with hp | hp
        · exact h p hp
        · obtain ⟨peer, -, rfl⟩ := List.mem_map.mp hp
          refine ⟨?_, emittedUuid_ne_empty env.uuid_ne_empty⟩
          rw [Entries.get?_set, if_pos rfl]
          rfl
      · rw [busEmit_of_denied haccess]
        exact h

/-! ## Runs -/

/-- The replicas agree in every state of a run exactly if every step of it is faithful. -/
theorem replicas_agree_iff (peers : ι → List ι) (actions : List (LanAction τ ι)) :
    (∀ pre post, actions = pre ++ post → Agrees (Machine.run (Lan.step peers) {} pre)) ↔
      Machine.Along (Lan.step peers) Faithful ({} : Lan τ ι) actions := by
  have hmarked : Marked ({} : Lan τ ι) := fun p hp => by cases hp
  have hstart : Agrees ({} : Lan τ ι) := agrees_start
  generalize ({} : Lan τ ι) = s at hmarked hstart
  induction actions generalizing s with
  | nil =>
      refine ⟨fun _ => trivial, fun _ pre post he => ?_⟩
      rw [(List.append_eq_nil_iff.mp he.symm).1]
      exact hstart
  | cons a actions ih =>
      have hnext : Agrees (s.step peers a) ↔ Faithful s a := agrees_step_iff hstart hmarked a
      have hrest := ih (s.step peers a) (marked_step hmarked a)
      constructor
      · intro h
        have hagrees : Agrees (s.step peers a) := h [a] actions rfl
        refine ⟨hnext.mp hagrees, (hrest hagrees).mp fun pre post he => ?_⟩
        exact h (a :: pre) post (by rw [he, List.cons_append])
      · rintro ⟨hfaithful, halong⟩ pre post he
        cases pre with
        | nil => exact hstart
        | cons b pre =>
            obtain ⟨rfl, hsuffix⟩ := List.cons.inj he
            exact (hrest (hnext.mpr hfaithful)).mpr halong pre post hsuffix

end Steps

/-! ## A sample LAN -/

section Sample

/-- No word characters or digits beyond ASCII. -/
local instance bridgeTables : Redaction.UnicodeTables := ⟨fun _ => false, fun _ => false⟩

/-- Node `false` forwards to node `true`. -/
def samplePeers : Bool → List Bool
  | false => [true]
  | true => []

def sampleEmit : LanAction ℕ Bool := .emit false "result" [("k", .str "v")] { uuid := "u", now := 0 }

def sampleDeliver : LanAction ℕ Bool := .deliver 0 { uuid := "d", now := 0 }

/-- One event that is forwarded once: the peer stores the marker and the sender does not. -/
theorem not_agree_forwarded :
    ¬ ∀ pre post, [sampleEmit, sampleDeliver] = pre ++ post →
      Agrees (Machine.run (Lan.step samplePeers) {} pre) := by
  intro h
  have hemitted : Agrees (Lan.step samplePeers {} sampleEmit) := h [sampleEmit] [sampleDeliver] rfl
  have hdelivered : Agrees (Lan.step samplePeers (Lan.step samplePeers {} sampleEmit) sampleDeliver) :=
    h [sampleEmit, sampleDeliver] [] rfl
  have hmarked : Marked (Lan.step samplePeers {} sampleEmit) :=
    marked_step (fun p hp => by cases hp) sampleEmit
  have hfaithful := (agrees_deliver_iff hemitted hmarked).mp hdelivered
  refine hfaithful _ rfl rfl fun r hr => ?_
  cases hr

end Sample

end Perpetua.Gossip

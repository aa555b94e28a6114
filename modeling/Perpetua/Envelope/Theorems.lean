import Perpetua.Envelope.Standard

/-!
# Accepted envelopes

An accepted envelope is well formed up to a line feed: the patterns of its identifiers, digests and
SHAs are anchored with a dollar sign, which allows one at the end.
-/

namespace Perpetua.Envelope

open StrictJson
open Json (Value)

/-! ## Patterns that allow a line feed -/

/-- A class of characters that no line feed belongs to. -/
def NoFeed (whole : Text → Bool) : Prop := ∀ t, whole t = true → '\n' ∉ t

theorem noFeed_repeated {p : Char → Bool} (hp : p '\n' = false) (lo hi : ℕ) : NoFeed (repeated p lo hi) := by
  intro t h hmem
  rw [repeated, Bool.and_eq_true, Bool.and_eq_true, List.all_eq_true] at h
  rw [h.1.1 '\n' hmem] at hp
  cases hp

theorem noFeed_isOpaqueId : NoFeed isOpaqueId := by
  intro t h
  rw [isOpaqueId, Bool.and_eq_true] at h
  exact noFeed_repeated (by decide) _ _ t h.2

/-- The text ends with a line feed. -/
def EndsWithFeed (s : String) : Prop := s.toList.getLast? = some '\n'

instance (s : String) : Decidable (EndsWithFeed s) := inferInstanceAs (Decidable (_ = _))

theorem reMatch_iff {whole : Text → Bool} (hwhole : NoFeed whole) {s : String}
    (h : reMatch whole s = true) : whole s.toList = true ↔ ¬ EndsWithFeed s := by
  rw [reMatch, Bool.or_eq_true, Bool.and_eq_true, beq_iff_eq] at h
  constructor
  · exact fun hall hfeed => hwhole _ hall (List.mem_of_getLast? hfeed)
  · exact fun hfeed => h.resolve_right fun hlast => hfeed hlast.1

/-! ## Well-formed envelopes -/

/-- 4 to 128 characters of `A-Z a-z 0-9 . _ : -`. -/
def OpaqueIdText (s : String) : Prop :=
  (∀ c ∈ s.toList, c.isAlphanum = true ∨ c ∈ ['.', '_', ':', '-']) ∧ 4 ≤ s.toList.length ∧ s.toList.length ≤ 128

/-- 64 lower-case hexadecimal digits. -/
def DigestText (s : String) : Prop :=
  (∀ c ∈ s.toList, c.isDigit = true ∨ 'a' ≤ c ∧ c ≤ 'f') ∧ s.toList.length = 64

/-- 7 to 40 hexadecimal digits. -/
def ShaText (s : String) : Prop :=
  (∀ c ∈ s.toList, c.isDigit = true ∨ 'a' ≤ c ∧ c ≤ 'f' ∨ 'A' ≤ c ∧ c ≤ 'F') ∧
    7 ≤ s.toList.length ∧ s.toList.length ≤ 40

theorem digestText_iff {s : String} : DigestText s ↔ isHex64 s.toList = true := by
  simp only [DigestText, isHex64, repeated, isLowerHex, Bool.and_eq_true, List.all_eq_true, Bool.or_eq_true,
    decide_eq_true_eq, and_assoc]
  exact and_congr_right fun _ => ⟨fun h => ⟨h.ge, h.le⟩, fun h => le_antisymm h.2 h.1⟩

theorem shaText_iff {s : String} : ShaText s ↔ isSha s.toList = true := by
  simp [ShaText, isSha, repeated, isHex, isLowerHex, or_assoc, and_assoc]

/-- What is matched as an opaque identifier is one unless a line feed follows. -/
theorem opaqueIdText_iff {s : String} (h : reMatch isOpaqueId s = true) :
    OpaqueIdText s ↔ ¬ EndsWithFeed s := by
  constructor
  · intro hid hfeed
    have hmem := hid.1 '\n' (List.mem_of_getLast? hfeed)
    revert hmem
    decide
  · intro hfeed
    have hall := (reMatch_iff noFeed_isOpaqueId h).mpr hfeed
    rw [isOpaqueId, Bool.and_eq_true] at hall
    simpa [OpaqueIdText, repeated, isOpaqueChar, and_assoc] using hall.2

section

variable {δ ε : Type} [IsoDates δ ε]

/-- The texts that are matched as opaque identifiers. -/
def AgentEnvelope.opaqueIds (e : AgentEnvelope δ ε) : List String :=
  [e.header.author.agentId, e.header.actor.agentId, e.header.actor.instanceId]

/-- The texts that are matched as digests with a dollar sign. -/
def AgentEnvelope.digests (e : AgentEnvelope δ ε) : List String :=
  e.header.redaction.allowlistDigest.toList ++ (e.panels.authorship.map (·.rationaleDigest)).toList

/-- The digests in the packet of a delivery. -/
def AgentEnvelope.packetDigests (e : AgentEnvelope δ ε) : List String :=
  ((e.panels.delivery.bind (·.monitorability)).map (·.integrity.redactedManifestSha256)).toList

def AgentEnvelope.baseShas (e : AgentEnvelope δ ε) : List String :=
  (e.panels.claim.map (·.expectedBaseSha)).toList

def AgentEnvelope.timestamps (e : AgentEnvelope δ ε) : List δ :=
  ([e.header.createdAt] ++ e.header.expiresAt.toList ++
    (e.panels.status.map (·.observedAt)).toList).map Subtype.val

/-- The panel of this kind is present. -/
def Panels.has (p : Panels δ ε) : EnvelopeKind → Bool
  | .authorship => p.authorship.isSome
  | .status => p.status.isSome
  | .delivery => p.delivery.isSome
  | .claim => p.claim.isSome

theorem Panels.has_iff {p : Panels δ ε} {kind : EnvelopeKind} (h : p.present = [kind]) (k : EnvelopeKind) :
    p.has k = true ↔ k = kind := by
  rw [Panels.present] at h
  have hmem : k ∈ p.present ↔ p.has k = true := by
    cases k <;> simp [Panels.present, Panels.has]
  rw [← hmem, Panels.present, h, List.mem_singleton]

/-- What an envelope promises. -/
structure WellFormed (e : AgentEnvelope δ ε) : Prop where
  panel : ∀ k, e.panels.has k = true ↔ k = e.header.envelopeKind
  lineage : e.header.lineage.isSome = true ↔ e.header.author.agentId ≠ e.header.actor.agentId
  principal : ∀ p ∈ e.header.actor.principalId, e.header.envelopeKind = .claim ∧
    ∃ c, e.panels.claim = some c ∧ c.principal = p
  task : ∀ c ∈ e.header.correlation, ∀ t ∈ c.taskId,
    (∀ packet ∈ e.panels.delivery, packet.taskId = t) ∧ ∀ claim ∈ e.panels.claim, claim.taskId = t
  aware : ∀ t ∈ e.timestamps, IsoDates.aware ε t = true
  opaqueIds : ∀ s ∈ e.opaqueIds, OpaqueIdText s
  digests : ∀ s ∈ e.digests ++ e.packetDigests, DigestText s
  baseSha : ∀ s ∈ e.baseShas, ShaText s

/-! ## What every accepted envelope keeps -/

theorem AgentEnvelope.principal (e : AgentEnvelope δ ε) {p : String}
    (hp : p ∈ e.header.actor.principalId) : e.header.envelopeKind = .claim ∧
      ∃ c, e.panels.claim = some c ∧ c.principal = p := by
  have hkind := e.header.divergence.principal (Option.ne_none_iff_exists'.mpr ⟨p, hp⟩)
  refine ⟨hkind, ?_⟩
  have hclaim := (Panels.has_iff e.onePanel .claim).mpr hkind.symm
  obtain ⟨c, hc⟩ := Option.isSome_iff_exists.mp hclaim
  exact ⟨c, hc, (e.projections.principal p hp c hc).symm⟩

theorem AgentEnvelope.task (e : AgentEnvelope δ ε) {c : CorrelationPanel} (hc : c ∈ e.header.correlation)
    {t : String} (ht : t ∈ c.taskId) :
    (∀ packet ∈ e.panels.delivery, packet.taskId = t) ∧ ∀ claim ∈ e.panels.claim, claim.taskId = t := by
  have htask := e.projections.task c hc t ht
  constructor
  · intro packet hpacket
    refine (htask packet.taskId ?_).symm
    rw [Panels.canonicalTask, Option.mem_def.mp hpacket]
    rfl
  · intro claim hclaim
    refine (htask claim.taskId ?_).symm
    have hkind := (Panels.has_iff e.onePanel .claim).mp (by rw [Panels.has, Option.mem_def.mp hclaim]; rfl)
    have hnone : e.panels.delivery = none := by
      by_contra hsome
      have hdelivery := (Panels.has_iff e.onePanel .delivery).mp (Option.isSome_iff_ne_none.mpr hsome)
      rw [← hkind] at hdelivery
      cases hdelivery
    rw [Panels.canonicalTask, hnone, Option.mem_def.mp hclaim]
    rfl

theorem AgentEnvelope.aware (e : AgentEnvelope δ ε) : ∀ t ∈ e.timestamps, IsoDates.aware ε t = true := by
  intro t ht
  obtain ⟨t, -, rfl⟩ := List.mem_map.mp ht
  exact t.property

/-- The texts that are matched with a dollar sign. -/
def AgentEnvelope.matched (e : AgentEnvelope δ ε) : List String := e.opaqueIds ++ e.digests ++ e.baseShas

theorem AgentEnvelope.opaqueIds_match (e : AgentEnvelope δ ε) :
    ∀ s ∈ e.opaqueIds, reMatch isOpaqueId s = true := by
  simp only [opaqueIds, List.forall_mem_cons, List.not_mem_nil, false_imp_iff, implies_true, and_true]
  exact ⟨e.header.author.agent_matches, e.header.actor.agent_matches, e.header.actor.instance_matches⟩

theorem AgentEnvelope.digests_match (e : AgentEnvelope δ ε) : ∀ s ∈ e.digests, reMatch isHex64 s = true := by
  intro s hs
  rcases List.mem_append.mp hs with hs | hs
  · exact (Option.all_eq_true _ _).mp e.header.redaction.digest_matches s (Option.mem_toList.mp hs)
  · obtain ⟨panel, -, rfl⟩ := Option.map_eq_some_iff.mp (Option.mem_toList.mp hs)
    exact panel.digest_matches

theorem AgentEnvelope.baseShas_match (e : AgentEnvelope δ ε) : ∀ s ∈ e.baseShas, reMatch isSha s = true := by
  intro s hs
  obtain ⟨claim, -, rfl⟩ := Option.map_eq_some_iff.mp (Option.mem_toList.mp hs)
  exact claim.sha_matches

theorem AgentEnvelope.packetDigests_text (e : AgentEnvelope δ ε) : ∀ s ∈ e.packetDigests, DigestText s := by
  intro s hs
  obtain ⟨monitorability, -, rfl⟩ := Option.map_eq_some_iff.mp (Option.mem_toList.mp hs)
  exact digestText_iff.mpr monitorability.integrity.manifest_matches

/-- An envelope is well formed exactly when no matched text ends with a line feed. -/
theorem AgentEnvelope.wellFormed_iff (e : AgentEnvelope δ ε) :
    WellFormed e ↔ ∀ s ∈ e.matched, ¬ EndsWithFeed s := by
  have hids : (∀ s ∈ e.opaqueIds, OpaqueIdText s) ↔ ∀ s ∈ e.opaqueIds, ¬ EndsWithFeed s :=
    forall₂_congr fun s hs => opaqueIdText_iff (e.opaqueIds_match s hs)
  have hdigests : (∀ s ∈ e.digests, DigestText s) ↔ ∀ s ∈ e.digests, ¬ EndsWithFeed s :=
    forall₂_congr fun s hs =>
      digestText_iff.trans (reMatch_iff (noFeed_repeated (by decide) _ _) (e.digests_match s hs))
  have hshas : (∀ s ∈ e.baseShas, ShaText s) ↔ ∀ s ∈ e.baseShas, ¬ EndsWithFeed s :=
    forall₂_congr fun s hs =>
      shaText_iff.trans (reMatch_iff (noFeed_repeated (by decide) _ _) (e.baseShas_match s hs))
  rw [matched, List.forall_mem_append, List.forall_mem_append, ← hids, ← hdigests, ← hshas]
  constructor
  · exact fun h => ⟨⟨h.opaqueIds, fun s hs => h.digests s (List.mem_append_left _ hs)⟩, h.baseSha⟩
  · rintro ⟨⟨hids, hdigests⟩, hshas⟩
    exact
      { panel := Panels.has_iff e.onePanel
        lineage := e.header.divergence.lineage
        principal := fun p hp => e.principal hp
        task := fun c hc t ht => e.task hc ht
        aware := e.aware
        opaqueIds := hids
        digests := List.forall_mem_append.mpr ⟨hdigests, e.packetDigests_text⟩
        baseSha := hshas }

/-! ## The matched texts of a payload -/

/-- Where a payload has the texts that are matched. -/
def matchedPaths : List (List String) :=
  [["header", "author", "agent_id"], ["header", "actor", "agent_id"], ["header", "actor", "instance_id"],
    ["header", "redaction", "allowlist_digest"], ["authorship", "rationale_digest"],
    ["claim", "expected_base_sha"]]

/-- No matched text of the payload ends with a line feed. -/
def NoTrailingFeed (payload : Value) : Prop :=
  ∀ path ∈ matchedPaths, ∀ s, at? payload path = some (.str s) → ¬ EndsWithFeed s

theorem AuthorPanel.at?_read {v : Value} {author : AuthorPanel} (h : AuthorPanel.read v = some author) :
    at? v ["agent_id"] = some (.str author.agentId) := by
  simp only [read, Option.bind_eq_bind, Option.bind_eq_some_iff] at h
  obtain ⟨fields, hfields, agentId, hagent, model, -, availability, -, h⟩ := h
  split at h
  · obtain rfl := Option.some.inj h
    obtain ⟨v', hv', hpath⟩ := at?_required hfields hagent
    rw [hpath, (minLength_eq_some.mp hv').1, at?]
  · cases h

theorem ActorPanel.at?_read {v : Value} {actor : ActorPanel} (h : ActorPanel.read v = some actor) :
    at? v ["agent_id"] = some (.str actor.agentId) ∧
      at? v ["instance_id"] = some (.str actor.instanceId) := by
  simp only [read, Option.bind_eq_bind, Option.bind_eq_some_iff] at h
  obtain ⟨fields, hfields, agentId, hagent, instanceId, hinstance, verified, -, principal, -, h⟩ := h
  split at h
  · obtain rfl := Option.some.inj h
    obtain ⟨v', hv', hpath⟩ := at?_required hfields hagent
    obtain ⟨v'', hv'', hpath'⟩ := at?_required hfields hinstance
    rw [hpath, hpath', (minLength_eq_some.mp hv').1, (minLength_eq_some.mp hv'').1, at?, at?]
    exact ⟨rfl, rfl⟩
  · cases h

theorem RedactionPanel.at?_read {v : Value} {redaction : RedactionPanel}
    (h : RedactionPanel.read v = some redaction) (s : String) :
    at? v ["allowlist_digest"] = some (.str s) ↔ redaction.allowlistDigest = some s := by
  simp only [read, Option.bind_eq_bind, Option.bind_eq_some_iff] at h
  obtain ⟨fields, hfields, applied, -, version, -, dropped, -, digest, hdigest, h⟩ := h
  split at h
  · obtain rfl := Option.some.inj h
    cases digest with
    | none => exact iff_of_false (at?_orNull_none hfields hdigest [] s) nofun
    | some digest =>
        obtain ⟨v', hv', hpath⟩ := at?_orNull hfields hdigest
        rw [hpath, str_eq_some.mp hv', at?]
        simp
  · cases h

theorem EnvelopeHeader.at?_read {v : Value} {header : EnvelopeHeader δ ε}
    (h : EnvelopeHeader.read v = some header) :
    at? v ["author", "agent_id"] = some (.str header.author.agentId) ∧
      at? v ["actor", "agent_id"] = some (.str header.actor.agentId) ∧
      at? v ["actor", "instance_id"] = some (.str header.actor.instanceId) ∧
      ∀ s, at? v ["redaction", "allowlist_digest"] = some (.str s) ↔
        header.redaction.allowlistDigest = some s := by
  unfold read at h
  obtain ⟨fields, hfields, h⟩ := Option.bind_eq_some_iff.mp h
  obtain ⟨_, -, h⟩ := Option.bind_eq_some_iff.mp h
  obtain ⟨_, -, h⟩ := Option.bind_eq_some_iff.mp h
  obtain ⟨_, -, h⟩ := Option.bind_eq_some_iff.mp h
  obtain ⟨_, -, h⟩ := Option.bind_eq_some_iff.mp h
  obtain ⟨_, -, h⟩ := Option.bind_eq_some_iff.mp h
  obtain ⟨author, hauthor, h⟩ := Option.bind_eq_some_iff.mp h
  obtain ⟨actor, hactor, h⟩ := Option.bind_eq_some_iff.mp h
  obtain ⟨redaction, hredaction, h⟩ := Option.bind_eq_some_iff.mp h
  obtain ⟨_, -, h⟩ := Option.bind_eq_some_iff.mp h
  obtain ⟨_, -, h⟩ := Option.bind_eq_some_iff.mp h
  obtain ⟨_, -, h⟩ := Option.bind_eq_some_iff.mp h
  obtain ⟨_, -, h⟩ := Option.bind_eq_some_iff.mp h
  split at h
  · obtain rfl := Option.some.inj h
    obtain ⟨_, hauthor, hauthorPath⟩ := at?_required hfields hauthor
    obtain ⟨_, hactor, hactorPath⟩ := at?_required hfields hactor
    obtain ⟨_, hredaction, hredactionPath⟩ := at?_required hfields hredaction
    rw [hauthorPath, hactorPath, hactorPath, hredactionPath]
    exact ⟨AuthorPanel.at?_read hauthor, (ActorPanel.at?_read hactor).1, (ActorPanel.at?_read hactor).2,
      RedactionPanel.at?_read hredaction⟩
  · cases h

theorem AuthorshipPanel.at?_read {v : Value} {panel : AuthorshipPanel ε}
    (h : AuthorshipPanel.read δ v = some panel) :
    at? v ["rationale_digest"] = some (.str panel.rationaleDigest) := by
  simp only [read, Option.bind_eq_bind, Option.bind_eq_some_iff] at h
  obtain ⟨fields, hfields, _, -, _, -, digest, hdigest, _, -, _, -, _, -, h⟩ := h
  split at h
  · obtain rfl := Option.some.inj h
    obtain ⟨_, hv, hpath⟩ := at?_required hfields hdigest
    rw [hpath, str_eq_some.mp hv, at?]
  · cases h

theorem ClaimPanel.at?_read {v : Value} {panel : ClaimPanel} (h : ClaimPanel.read v = some panel) :
    at? v ["expected_base_sha"] = some (.str panel.expectedBaseSha) := by
  simp only [read, Option.bind_eq_bind, Option.bind_eq_some_iff] at h
  obtain ⟨fields, hfields, _, -, _, -, _, -, _, -, _, -, _, -, sha, hsha, _, -, h⟩ := h
  split at h
  · obtain rfl := Option.some.inj h
    obtain ⟨_, hv, hpath⟩ := at?_required hfields hsha
    rw [hpath, str_eq_some.mp hv, at?]
  · cases h

/-- A text in a panel that may be missing. -/
theorem at?_panel {α : Type} {names : List String} {v : Value} {fields : Fields}
    (hfields : object names v = some fields) {name : String} {read : Reader α} {panel : Option α}
    (hread : orNull fields name read = some panel) (key : String) (text : α → String)
    (htext : ∀ v a, read v = some a → at? v [key] = some (.str (text a))) (s : String) :
    at? v [name, key] = some (.str s) ↔ s ∈ (panel.map text).toList := by
  cases panel with
  | none => exact iff_of_false (at?_orNull_none hfields hread [key] s) (by simp)
  | some a =>
      obtain ⟨v', hv', hpath⟩ := at?_orNull hfields hread
      rw [hpath, htext v' a hv']
      simp [eq_comm]

/-- The texts behind the paths are the ones that are matched. -/
theorem mem_matched {payload : Value} {e : AgentEnvelope δ ε} (h : validateEnvelope payload = some e)
    (s : String) : s ∈ e.matched ↔ ∃ path ∈ matchedPaths, at? payload path = some (.str s) := by
  simp only [validateEnvelope, Option.bind_eq_bind, Option.bind_eq_some_iff] at h
  obtain ⟨fields, hfields, header, hheader, authorship, hauthorship, status, -, delivery, -, claim,
    hclaim, h⟩ := h
  split at h
  · obtain rfl := Option.some.inj h
    obtain ⟨_, hheader, hpath⟩ := at?_required hfields hheader
    obtain ⟨hauthor, hactor, hinstance, hdigest⟩ := EnvelopeHeader.at?_read hheader
    have hrationale := at?_panel hfields hauthorship "rationale_digest" AuthorshipPanel.rationaleDigest
      (fun _ _ => AuthorshipPanel.at?_read) s
    have hsha := at?_panel hfields hclaim "expected_base_sha" ClaimPanel.expectedBaseSha
      (fun _ _ => ClaimPanel.at?_read) s
    simp only [matchedPaths, List.mem_cons, List.not_mem_nil, or_false, exists_eq_or_imp,
      exists_eq_left, hpath, hauthor, hactor, hinstance, hdigest, hrationale, hsha]
    simp [AgentEnvelope.matched, AgentEnvelope.opaqueIds, AgentEnvelope.digests, AgentEnvelope.baseShas,
      eq_comm]
  · cases h

/-- An accepted envelope is well formed exactly when none of the texts in its payload that are matched
with a dollar sign ends with a line feed. -/
theorem validateEnvelope_wellFormed_iff {payload : Value} {e : AgentEnvelope δ ε}
    (h : validateEnvelope payload = some e) : WellFormed e ↔ NoTrailingFeed payload := by
  rw [e.wellFormed_iff]
  constructor
  · intro hall path hpath s hs
    exact hall s ((mem_matched h s).mpr ⟨path, hpath, hs⟩)
  · intro hnone s hs
    obtain ⟨path, hpath, hs⟩ := (mem_matched h s).mp hs
    exact hnone path hpath s hs

end

/-! ## A status envelope -/

/-- The one time that the samples use. -/
@[reducible] def sampleDates : IsoDates String String :=
  ⟨fun s => if s = "2026-09-27T00:00:00+00:00" then some s else none, fun _ => true, fun _ => none⟩

/-- A status that its author presents. -/
def statusEnvelope (instanceId : String) : Value :=
  .obj
    [("header", .obj
        [("envelope_id", .str "env-0001"), ("envelope_schema_version", .str "1"),
          ("envelope_kind", .str "status"), ("created_at", .str "2026-09-27T00:00:00Z"),
          ("privacy_tier", .str "internal_only"),
          ("author", .obj [("agent_id", .str "agent-a"), ("availability", .str "active")]),
          ("actor", .obj [("agent_id", .str "agent-a"), ("instance_id", .str instanceId),
            ("identity_verified", .bool true)]),
          ("redaction", .obj [("applied", .bool true)])]),
      ("status", .obj [("authority", .str "read_only"), ("liveness_effect", .str "none"),
        ("observed_at", .str "2026-09-27T00:00:00+00:00")])]

theorem wellFormed_sample : ∃ e, @validateEnvelope String String sampleDates (statusEnvelope "inst-1") = some e ∧
    @WellFormed String String sampleDates e := by
  obtain ⟨e, he⟩ := Option.isSome_iff_exists.mp (by decide :
    (@validateEnvelope String String sampleDates (statusEnvelope "inst-1")).isSome = true)
  have hfeeds : ∀ path ∈ matchedPaths, ((at? (statusEnvelope "inst-1") path).bind str).all
      fun s => ¬ EndsWithFeed s := by decide
  refine ⟨e, he, (@validateEnvelope_wellFormed_iff String String sampleDates _ _ he).mpr ?_⟩
  intro path hpath s hs
  have hall := hfeeds path hpath
  rw [hs, Option.bind_some, str_eq_some.mpr rfl] at hall
  simpa using hall

/-- A line feed behind the identifier of an instance is accepted. -/
theorem not_wellFormed_lineFeed : ∃ e,
    @validateEnvelope String String sampleDates (statusEnvelope "inst-1\n") = some e ∧
      ¬ @WellFormed String String sampleDates e := by
  obtain ⟨e, he⟩ := Option.isSome_iff_exists.mp (by decide :
    (@validateEnvelope String String sampleDates (statusEnvelope "inst-1\n")).isSome = true)
  have hmatched := (@mem_matched String String sampleDates _ _ he "inst-1\n").mpr
    ⟨["header", "actor", "instance_id"], by decide, rfl⟩
  refine ⟨e, he, fun h => ?_⟩
  exact (@AgentEnvelope.wellFormed_iff String String sampleDates e).mp h _ hmatched (by decide)

end Perpetua.Envelope

import Mathlib.Tactic.Linarith
import Perpetua.Tls.PkiTheorems

/-!
# A second run reuses the leaf

What one run has issued passes the checks of the next one, as long as the CA lives: the leaf does not
outlive its CA, and a leaf with less than a week left is issued again.
-/

namespace Perpetua.Tls

open Logged (Passing Triple)

variable {κ : Type}

/-! ## The leaf that is issued -/

/-- A time that a certificate can hold. -/
def Whole (t : ℤ) : Prop := wholeSeconds t = t

theorem wholeSeconds_whole (t : ℤ) : Whole (wholeSeconds t) := by
  unfold Whole wholeSeconds
  omega

theorem PkiRun.newLeaf_remainingDays (r : PkiRun κ) {ca : Certificate κ} (hca : Whole ca.notAfter)
    (caKey : κ) (ips : List String) :
    7 ≤ (r.newLeaf ca caKey ips).remainingDays r.now ↔ 7 ≤ ca.remainingDays r.now := by
  unfold Whole wholeSeconds at hca
  simp only [Certificate.remainingDays, newLeaf, wholeSeconds, days]
  rcases min_choice (r.now + 30 * 86400000000) ca.notAfter with hmin | hmin <;> rw [hmin]
  · -- The leaf has its thirty days, and the CA has more than that.
    have hle : r.now + 30 * 86400000000 ≤ ca.notAfter := min_eq_left_iff.mp hmin
    omega
  · rw [hca]

variable [CertLib κ]

theorem PkiRun.newLeaf_coversDns (r : PkiRun κ) (ca : Certificate κ) (caKey : κ) (ips : List String) :
    (r.newLeaf ca caKey ips).coversDns r.wantDns = true := by
  simp only [newLeaf, Certificate.coversDns, Option.any_some, List.all_eq_true]
  exact fun name hname => List.contains_iff_mem.mpr hname

omit [CertLib κ] in
theorem PkiRun.newLeaf_coversIps (r : PkiRun κ) (ca : Certificate κ) (caKey : κ) (ips : List String) :
    (r.newLeaf ca caKey ips).coversIps ips = true := by
  simp [newLeaf, Certificate.coversIps]

/-! ## Settled files -/

section

variable [DecidableEq κ]

/-- The CA on disk is the pinned one, and it has not expired. -/
structure Kept (r : PkiRun κ) (ca : Certificate κ) (s : PkiStore κ) : Prop where
  caKey : s.caKey = some ca.publicKey
  caCert : s.caCert = some ca
  pin : ∀ r' : PkiRun κ, r'.readsPin → r'.loadPin s = .ok (some (fingerprint ca))
  alive : 0 < ca.notAfter - r.now
  whole : Whole ca.notAfter

/-- The leaf on disk passes every check of `_leaf_problem` but that of its age. -/
structure Serves (r : PkiRun κ) (ca leaf : Certificate κ) (s : PkiStore κ) : Prop where
  leafKey : s.leafKey = some leaf.publicKey
  leafChain : ∃ rest, s.leafChain = some (leaf :: rest)
  issuedBy : r.issuedBy leaf ca
  coversDns : leaf.coversDns r.wantDns
  coversIps : ∃ ips, r.wantIps = .ok ips ∧ leaf.coversIps ips

/-- The public CA and its sum are on disk. -/
structure Published (r : PkiRun κ) (ca : Certificate κ) (s : PkiStore κ) : Prop where
  publicCa : s.publicCa r.publicName = some ca
  sums : s.sums = some (Sha256.hexdigest (CertLib.pem ca) ++ "  " ++ r.publicName ++ "\n")

variable {r : PkiRun κ} {ca leaf : Certificate κ} {f s start : PkiStore κ}

/-! ## The first run -/

/-- The current state of a run. -/
abbrev Now (start : PkiStore κ) (Q : PkiStore κ → Prop) : List (PkiWrite κ) → Prop :=
  Way start (fun _ => True) Q

omit [DecidableEq κ] in
theorem loadPin_pinPayload {pinnedAt : String} (h : s.pin = .json (pinPayload (fingerprint ca) pinnedAt))
    {r' : PkiRun κ} (hreads : r'.readsPin) : r'.loadPin s = .ok (some (fingerprint ca)) := by
  unfold PkiRun.loadPin
  rw [h]
  simp [hreads, pinPayload, Entries.get?, fingerprint, isHex64_hexdigest]

omit [CertLib κ] [DecidableEq κ] in
/-- What is loaded as a pin depends on the pin file only. -/
theorem loadPin_again {fp : String} (h : r.loadPin f = .ok (some fp)) (hpin : s.pin = f.pin)
    {r' : PkiRun κ} (hreads : r'.readsPin) : r'.loadPin s = .ok (some fp) := by
  unfold PkiRun.loadPin at h ⊢
  rw [hpin]
  split at h
  · cases h
  · rw [if_neg (by simp [hreads])]
    split at h
    · cases h
    · cases h
    · split at h
      · split at h
        · cases h
          rename_i hhex
          simp only [if_pos hhex]
        · cases h
      · cases h
    · cases h

/-- The CA that a run goes on with; the leaf is as it was. -/
theorem triple_ensureCa_kept (hwhole : ∀ cert, start.caCert = some cert → Whole cert.notAfter) :
    Triple (Now start (· = start)) (ensureCa r start)
      (fun pair => Now start fun s => Kept r pair.1 s ∧ pair.2 = pair.1.publicKey) (fun _ => True) := by
  unfold ensureCa
  refine .bind triple_files fun f => .assuming (c := f = start) ?_ ?_
  · intro log h
    exact h.now.2.trans h.now.1
  rintro rfl
  refine .bind (Q := fun pinned log => Now f (· = f) log ∧ r.loadPin f = .ok pinned)
    (.lift (fun pinned log hok h => ⟨h.weaken fun s hs => hs.1, hok⟩) fun _ _ => trivial)
    fun pinned => .assuming (fun _ h => h.2) fun hload => ?_
  refine .bind (Q := fun pair => Now f fun s => s.caCert = some pair.1 ∧
    s.caKey = some pair.1.publicKey ∧ pair.2 = pair.1.publicKey ∧ s.pin = f.pin ∧
    Whole pair.1.notAfter) ?_ fun pair => ?_
  · unfold loadOrCreateCa
    split
    · rename_i pair hpair
      obtain ⟨hcert, hkey, hpublic⟩ := loadCa_eq_some hpair
      refine .pure fun _ h => h.1.weaken ?_
      rintro _ rfl
      exact ⟨hcert, hkey, hpublic, rfl, hwhole _ hcert⟩
    · exact .raise fun _ _ => trivial
    · refine .bind (Q := fun _ => Now f fun s => s.caKey = some r.caKey ∧ s.pin = f.pin)
        (.weaken (.write (Q := (· = f)) ?_) (fun _ h => h.1) (fun _ _ h => h) fun _ h => h) fun _ => ?_
      · rintro _ rfl
        exact ⟨trivial, rfl, rfl⟩
      refine .bind (.write fun s hs => ⟨trivial, ?_⟩) fun _ => .pure fun _ h => h
      exact ⟨rfl, hs.1, rfl, hs.2, wholeSeconds_whole _⟩
  refine .bind (Q := fun _ => Now f fun s => s.caCert = some pair.1 ∧
    s.caKey = some pair.1.publicKey ∧ pair.2 = pair.1.publicKey ∧ Whole pair.1.notAfter ∧
    ∀ r' : PkiRun κ, r'.readsPin → r'.loadPin s = .ok (some (fingerprint pair.1))) ?_ fun _ => ?_
  · unfold pinCa
    split
    · refine .write fun s hs => ⟨trivial, hs.1, hs.2.1, hs.2.2.1, hs.2.2.2.2, fun r' hreads => ?_⟩
      exact loadPin_pinPayload rfl hreads
    · rename_i fp
      refine .ite (fun _ => .raise fun _ _ => trivial) fun heq => .pure fun _ h => h.weaken ?_
      rw [not_not] at heq
      intro s hs
      refine ⟨hs.1, hs.2.1, hs.2.2.1, hs.2.2.2.2, fun r' hreads => ?_⟩
      exact heq ▸ loadPin_again hload hs.2.2.2.1 hreads
  · refine .ite (fun _ => .raise fun _ _ => trivial) fun halive => .pure fun _ h => h.weaken ?_
    intro s hs
    exact ⟨⟨hs.2.1, hs.1, hs.2.2.2.2, not_le.mp halive, hs.2.2.2.1⟩, hs.2.2.1⟩

/-- A leaf without a problem passes the checks. -/
theorem serves_of_leafProblem (h : r.leafProblem s ca = .ok "") :
    ∃ leaf, Serves r ca leaf s ∧ 7 ≤ leaf.remainingDays r.now := by
  unfold PkiRun.leafProblem at h
  split at h
  · simp at h
  split at h
  · rename_i leaf rest key hleaf hkey
    split at h
    · simp at h
    split at h
    · simp at h
    split at h
    · simp at h
    split at h
    · simp at h
    rename_i hpair hissued hold hdns
    cases hips : r.wantIps with
    | error e =>
        rw [hips] at h
        cases h
    | ok ips =>
        rw [hips] at h
        have hcovers : leaf.coversIps ips = true := by
          by_contra hmissing
          simp [Except.map, hmissing] at h
        rw [not_not] at hpair
        simp only [Bool.not_eq_true, Bool.not_eq_false'] at hissued hdns
        exact ⟨leaf, ⟨by rw [hkey, hpair], ⟨rest, hleaf⟩, hissued, hdns, ips, hips, hcovers⟩,
          not_lt.mp hold⟩
  · simp at h

/-- How the checks end on a leaf that passes those before and behind that of its age. -/
theorem Serves.leafProblem (h : Serves r ca leaf s) (hreads : r.readsLeaf) :
    r.leafProblem s ca = .ok (if leaf.remainingDays r.now < 7 then "rotated" else "") := by
  obtain ⟨rest, hchain⟩ := h.leafChain
  obtain ⟨ips, hips, hcovers⟩ := h.coversIps
  unfold PkiRun.leafProblem
  rw [if_neg (by simp [hreads]), hchain, h.leafKey]
  simp only [h.issuedBy, h.coversDns, hips]
  simp [Except.map, hcovers, apply_ite]

theorem leafProblem_ne_reused {problem : String} (h : r.leafProblem s ca = .ok problem) :
    problem ≠ "reused" := by
  rintro rfl
  unfold PkiRun.leafProblem at h
  split at h
  · simp at h
  split at h
  · iterate 4
      split at h
      · simp at h
    cases hips : r.wantIps with
    | error e =>
        rw [hips] at h
        cases h
    | ok ips =>
        rw [hips] at h
        simp only [Except.map] at h
        split at h <;> simp at h
  · simp at h

/-- The wanted addresses can be sorted with the loopback address. -/
def Sortable (r : PkiRun κ) : Prop :=
  ∃ ips, r.wantIps = .ok ips ∧ (ips.any fun ip => ip.toList.contains ':') = false

/-- A leaf that is reused has its week; one that was issued has it if the CA has. -/
def Aged (r : PkiRun κ) (ca leaf : Certificate κ) (leafEvent : String) : Prop :=
  leafEvent = "reused" ∧ 7 ≤ leaf.remainingDays r.now ∨
    leafEvent ≠ "reused" ∧ Sortable r ∧ (7 ≤ leaf.remainingDays r.now ↔ 7 ≤ ca.remainingDays r.now)

/-- What a run has on disk when it reads its leaf back. -/
structure Settled (r : PkiRun κ) (ca leaf : Certificate κ) (s : PkiStore κ) : Prop where
  kept : Kept r ca s
  serves : Serves r ca leaf s

theorem triple_renewLeaf_serves {problem : String} (hproblem : r.leafProblem f ca = .ok problem) :
    Triple (Now start fun s => Kept r ca s ∧ s = f) (renewLeaf r ca ca.publicKey problem)
      (fun leafEvent => Now start fun s => ∃ leaf, Settled r ca leaf s ∧ Aged r ca leaf leafEvent)
      (fun _ => True) := by
  unfold renewLeaf
  refine .ite (fun hreuse => .pure fun _ h => h.weaken ?_) fun _ => ?_
  · rintro s ⟨hkept, rfl⟩
    subst hreuse
    obtain ⟨leaf, hserves, hage⟩ := serves_of_leafProblem hproblem
    exact ⟨leaf, ⟨hkept, hserves⟩, .inl ⟨rfl, hage⟩⟩
  have hevent : (if problem = "missing" then "created" else problem) ≠ "reused" := by
    split
    · decide
    · exact leafProblem_ne_reused hproblem
  refine .bind (Q := fun _ => Now start fun s => ∃ leaf, Settled r ca leaf s ∧ Sortable r ∧
    (7 ≤ leaf.remainingDays r.now ↔ 7 ≤ ca.remainingDays r.now)) ?_ fun _ => .pure fun _ h =>
      h.weaken fun s ⟨leaf, hsettled, hage⟩ => ⟨leaf, hsettled, .inr ⟨hevent, hage⟩⟩
  unfold issueLeaf
  refine .bind (Q := fun ips log => Now start (Kept r ca) log ∧ r.wantIps = .ok ips)
    (.lift (fun ips _ hok h => ⟨h.weaken fun s hs => hs.1, hok⟩) fun _ _ => trivial)
    fun ips => .assuming (fun _ h => h.2) fun hips => ?_
  refine .ite (fun _ => .raise fun _ _ => trivial) fun hsort => ?_
  refine .bind (Q := fun _ => Now start fun s => Kept r ca s ∧ s.leafKey = some r.leafKey)
    (.weaken (.write (Q := Kept r ca) fun s hs => ⟨trivial, ?_⟩) (fun _ h => h.1) (fun _ _ h => h)
      fun _ h => h) fun _ => .write fun s hs => ⟨trivial, ?_⟩
  · exact ⟨⟨hs.caKey, hs.caCert, hs.pin, hs.alive, hs.whole⟩, rfl⟩
  · refine ⟨r.newLeaf ca ca.publicKey ips, ⟨⟨hs.1.caKey, hs.1.caCert, hs.1.pin, hs.1.alive,
      hs.1.whole⟩, ?_⟩, ⟨ips, hips, by simpa using hsort⟩, r.newLeaf_remainingDays hs.1.whole _ _⟩
    refine ⟨hs.2, ⟨[ca], rfl⟩, ?_, r.newLeaf_coversDns _ _ _, ips, hips, r.newLeaf_coversIps _ _ _⟩
    simp [PkiRun.issuedBy, PkiRun.newLeaf]

variable (leaf) in
theorem triple_publish_settled :
    Triple (Now start (Settled r ca leaf)) (publish r start ca)
      (fun _ => Now start fun s => Settled r ca leaf s ∧ Published r ca s) (fun _ => True) := by
  have hframe : ∀ s, Settled r ca leaf s → Settled r ca leaf (s.apply (.publicCa r.publicName ca)) :=
    fun s h => ⟨⟨h.kept.caKey, h.kept.caCert, h.kept.pin, h.kept.alive, h.kept.whole⟩,
      ⟨h.serves.leafKey, h.serves.leafChain, h.serves.issuedBy, h.serves.coversDns, h.serves.coversIps⟩⟩
  have hread : ∀ s : PkiStore κ, (s.apply (.publicCa r.publicName ca)).publicCa r.publicName = some ca :=
    fun s => by simp [PkiStore.apply]
  unfold publish
  refine .bind triple_files fun f => .bind (Q := fun _ => Now start fun s =>
    Settled r ca leaf s ∧ s.publicCa r.publicName = some ca) ?_ fun _ => ?_
  · unfold writePublicCa
    split
    · exact .write fun s hs => ⟨trivial, hframe s hs.1, hread s⟩
    · rename_i old hold
      refine .ite (fun _ => .raise fun _ _ => trivial) fun _ =>
        .ite (fun _ => .write fun s hs => ⟨trivial, hframe s hs.1, hread s⟩) fun heq => ?_
      refine .pure fun _ h => h.weaken ?_
      rintro s ⟨hs, rfl⟩
      rw [not_not] at heq
      exact ⟨hs, heq ▸ hold⟩
  refine .bind triple_files fun f => .ite (fun _ => .raise fun _ _ => trivial) fun _ =>
    .assuming (c := f.publicCa r.publicName = some ca) ?_ fun hpublic => ?_
  · intro log h
    obtain ⟨hs, rfl⟩ := h.now
    exact hs.2
  rw [hpublic]
  refine .ite (fun hsums => .pure fun _ h => h.weaken ?_) fun _ =>
    .bind (.write (S := fun s => Settled r ca leaf s ∧ Published r ca s) fun s hs => ⟨trivial, ?_⟩)
      fun _ => .pure fun _ h => h
  · rintro s ⟨hs, rfl⟩
    exact ⟨hs.1, hs.2, hsums⟩
  · obtain ⟨⟨hsettled, hpublic⟩, -⟩ := hs
    exact ⟨⟨⟨hsettled.kept.caKey, hsettled.kept.caCert, hsettled.kept.pin, hsettled.kept.alive,
      hsettled.kept.whole⟩, ⟨hsettled.serves.leafKey, hsettled.serves.leafChain,
      hsettled.serves.issuedBy, hsettled.serves.coversDns, hsettled.serves.coversIps⟩⟩, hpublic, rfl⟩

/-- What a run that returns reports and has on disk. -/
structure Reported (r : PkiRun κ) (ca leaf : Certificate κ) (report : PkiReport) (s : PkiStore κ) :
    Prop where
  settled : Settled r ca leaf s
  published : Published r ca s
  aged : Aged r ca leaf report.leafEvent
  caFingerprint : report.caFingerprint = fingerprint ca
  leafFingerprint : report.leafFingerprint = fingerprint leaf

theorem triple_ensure_reported (hwhole : ∀ cert, start.caCert = some cert → Whole cert.notAfter) :
    Triple (Now start (· = start)) (ensureLocked r start)
      (fun report => Now start fun s => ∃ ca leaf, Reported r ca leaf report s) (fun _ => True) := by
  unfold ensureLocked
  refine .bind (triple_ensureCa_kept hwhole) fun pair => ?_
  obtain ⟨ca, key⟩ := pair
  refine .assuming (fun _ h => h.now.2) fun hkey => ?_
  obtain rfl : key = ca.publicKey := hkey
  refine .bind triple_files fun f => ?_
  refine .bind (Q := fun problem log => Now start (fun s => Kept r ca s ∧ s = f) log ∧
    r.leafProblem f ca = .ok problem) (.lift (fun problem log hok h =>
      ⟨h.weaken fun _ hs => ⟨hs.1.1, hs.2.symm⟩, hok⟩) fun _ _ => trivial)
    fun problem => .assuming (fun _ h => h.2) fun hproblem => ?_
  refine .bind (.weaken (triple_renewLeaf_serves hproblem) (fun _ h => h.1) (fun _ _ h => h)
    fun _ h => h) fun leafEvent => .bind triple_files fun f => ?_
  split
  · exact .raise fun _ _ => trivial
  · exact .raise fun _ _ => trivial
  · rename_i leaf rest hchain
    refine .assuming (c := Aged r ca leaf leafEvent) ?_ fun haged => ?_
    · intro log h
      obtain ⟨⟨leaf', hsettled, haged⟩, rfl⟩ := h.now
      obtain ⟨rest', hchain'⟩ := hsettled.serves.leafChain
      rw [hchain'] at hchain
      split at hchain
      · cases hchain
        exact haged
      · cases hchain
    refine .bind (.weaken (triple_publish_settled leaf) (fun _ h => h.weaken ?_)
      (fun _ _ h => h) fun _ h => h) fun digest => .pure fun _ h => h.weaken fun s hs =>
        ⟨ca, leaf, hs.1, hs.2, haged, rfl, rfl⟩
    rintro s ⟨⟨leaf', hsettled, -⟩, rfl⟩
    obtain ⟨rest', hchain'⟩ := hsettled.serves.leafChain
    rw [hchain'] at hchain
    split at hchain
    · cases hchain
      exact hsettled
    · cases hchain

/-! ## The second run -/

/-- Another run at the same time with the same configuration, in which every read succeeds; its keys,
serial numbers and time stamp are its own. -/
def PkiRun.again (r fresh : PkiRun κ) : PkiRun κ :=
  { fresh with
    hostname := r.hostname, localName := r.localName, sanDns := r.sanDns, sanIps := r.sanIps
    now := r.now, verifies := r.verifies, readsCa := true, readsPin := true, readsLeaf := true
    readsChain := true, readsPublic := true }

theorem Settled.again (h : Settled r ca leaf s) (fresh : PkiRun κ) :
    Settled (r.again fresh) ca leaf s :=
  ⟨⟨h.kept.caKey, h.kept.caCert, h.kept.pin, h.kept.alive, h.kept.whole⟩,
    ⟨h.serves.leafKey, h.serves.leafChain, h.serves.issuedBy, h.serves.coversDns, h.serves.coversIps⟩⟩

omit [CertLib κ] [DecidableEq κ] in
theorem files_run (start : PkiStore κ) (log : List (PkiWrite κ)) :
    files start log = (.ok (log.foldl PkiStore.apply start), log) := rfl

theorem Kept.ensureCa (h : Kept r ca s) (hca : r.readsCa) (hpin : r.readsPin) :
    ensureCa r s [] = (.ok (ca, ca.publicKey), []) := by
  have hload : r.loadCa s = some (ca, ca.publicKey) := by
    rw [PkiRun.loadCa, if_neg (by simp [hca]), h.caCert, h.caKey]
    simp
  unfold Tls.ensureCa
  have hkept : loadOrCreateCa r s (some (fingerprint ca)) [] = (.ok (ca, ca.publicKey), []) := by
    unfold loadOrCreateCa
    rw [hload]
    rfl
  have hpinned : pinCa r (some (fingerprint ca)) (fingerprint ca) [] = (.ok (), []) := by
    simp only [pinCa, if_neg (not_not.mpr rfl)]
    rfl
  rw [Logged.bind_ok (files_run s []), List.foldl_nil, h.pin r hpin, Logged.lift_ok_bind,
    Logged.bind_ok hkept, Logged.bind_ok hpinned, if_neg (not_le.mpr h.alive)]
  rfl

/-- What is published stays, whatever has been written of the leaf. -/
theorem Published.publish (hreads : r.readsPublic) (log : List (PkiWrite κ))
    (h : Published r ca (log.foldl PkiStore.apply s)) :
    publish r s ca log = (.ok (Sha256.hexdigest (CertLib.pem ca)), log) := by
  have hsame : writePublicCa r (log.foldl PkiStore.apply s) ca log = (.ok (), log) := by
    rw [writePublicCa, h.publicCa]
    simp only [if_neg (by simp [hreads] : ¬(!r.readsPublic) = true), if_neg (not_not.mpr rfl)]
    rfl
  unfold Tls.publish
  rw [Logged.bind_ok (files_run s log), Logged.bind_ok hsame,
    Logged.bind_ok (files_run s log),
    if_neg (by simp [hreads] : ¬(!r.readsPublic) = true), h.publicCa]
  exact congrFun (if_pos h.sums) log

variable {fresh : PkiRun κ}

variable (fresh) in
/-- A leaf that has its week is reused. -/
theorem Settled.reuse (h : Settled r ca leaf s) (hpublic : Published r ca s)
    (hage : 7 ≤ leaf.remainingDays r.now) :
    ensure (r.again fresh) s = (.ok { caFingerprint := fingerprint ca, leafFingerprint := fingerprint leaf
                                      caFileSha256 := Sha256.hexdigest (CertLib.pem ca)
                                      leafEvent := "reused" }, []) := by
  have hagain := h.again fresh
  obtain ⟨rest, hchain⟩ := h.serves.leafChain
  have hproblem : (r.again fresh).leafProblem s ca = .ok "" :=
    (hagain.serves.leafProblem rfl).trans (congrArg _ (if_neg (not_lt.mpr hage)))
  have hpublished : Published (r.again fresh) ca s := ⟨hpublic.publicCa, hpublic.sums⟩
  have hreused : renewLeaf (r.again fresh) ca ca.publicKey "" [] = (.ok "reused", []) := by
    rw [renewLeaf, if_pos rfl]
    rfl
  unfold ensure ensureLocked
  rw [Logged.bind_ok (hagain.kept.ensureCa rfl rfl), Logged.bind_ok (files_run s []),
    List.foldl_nil, hproblem, Logged.lift_ok_bind, Logged.bind_ok hreused,
    Logged.bind_ok (files_run s []), List.foldl_nil, hchain]
  exact Logged.bind_ok (hpublished.publish rfl [])

variable (fresh) in
/-- A leaf that does not have its week is issued again, by the same CA. -/
theorem Settled.rotate (h : Settled r ca leaf s) (hpublic : Published r ca s) (hsort : Sortable r)
    (hage : leaf.remainingDays r.now < 7) :
    ∃ report, (ensure (r.again fresh) s).1 = .ok report ∧ report.caFingerprint = fingerprint ca ∧
      report.leafEvent = "rotated" := by
  have hagain := h.again fresh
  have hproblem : (r.again fresh).leafProblem s ca = .ok "rotated" :=
    (hagain.serves.leafProblem rfl).trans (congrArg _ (if_pos hage))
  obtain ⟨ips, hips, hsorted⟩ := hsort
  have hips' : (r.again fresh).wantIps = .ok ips := hips
  have hissue : issueLeaf (r.again fresh) ca ca.publicKey [] = (.ok (),
      [.leafKey fresh.leafKey, .leafChain [(r.again fresh).newLeaf ca ca.publicKey ips, ca]]) := by
    unfold issueLeaf
    rw [hips', Logged.lift_ok_bind, if_neg (by rw [hsorted]; exact Bool.false_ne_true)]
    rfl
  have hpublished : Published (r.again fresh) ca
      (List.foldl PkiStore.apply s
        [.leafKey fresh.leafKey, .leafChain [(r.again fresh).newLeaf ca ca.publicKey ips, ca]]) :=
    ⟨hpublic.publicCa, hpublic.sums⟩
  have hrotated : renewLeaf (r.again fresh) ca ca.publicKey "rotated" [] = (.ok "rotated",
      [.leafKey fresh.leafKey, .leafChain [(r.again fresh).newLeaf ca ca.publicKey ips, ca]]) := by
    rw [renewLeaf, if_neg (by decide), Logged.bind_ok hissue, if_neg (by decide)]
    rfl
  unfold ensure ensureLocked
  rw [Logged.bind_ok (hagain.kept.ensureCa rfl rfl), Logged.bind_ok (files_run s []),
    List.foldl_nil, hproblem, Logged.lift_ok_bind, Logged.bind_ok hrotated,
    Logged.bind_ok (files_run s _)]
  refine ⟨_, congrArg Prod.fst (Logged.bind_ok (hpublished.publish rfl _)), rfl, rfl⟩

/-- A second run at the same time with the same names and addresses reuses the leaf and writes
nothing, unless the first one has issued a leaf for a CA that has less than a week left: then the leaf
is issued again, by the same CA. -/
theorem ensure_again (r fresh : PkiRun κ) (f : PkiStore κ) {report : PkiReport}
    (hwhole : ∀ cert, f.caCert = some cert → Whole cert.notAfter)
    (hreturn : (ensure r f).1 = .ok report) :
    ∃ ca report', (f.afterEnsure r).caCert = some ca ∧
      (ensure (r.again fresh) (f.afterEnsure r)).1 = .ok report' ∧
      report'.caFingerprint = report.caFingerprint ∧
      if report.leafEvent = "reused" ∨ 7 ≤ ca.remainingDays r.now then
        report'.leafEvent = "reused" ∧ report'.leafFingerprint = report.leafFingerprint ∧
          (ensure (r.again fresh) (f.afterEnsure r)).2 = []
      else report'.leafEvent = "rotated" := by
  have hrun := triple_ensure_reported (r := r) hwhole [] (.nil trivial rfl)
  have hends : ∃ ca leaf, Reported r ca leaf report (f.afterEnsure r) := by
    unfold PkiStore.afterEnsure
    unfold ensure at hreturn ⊢
    rcases hend : ensureLocked r f [] with ⟨result, writes⟩
    rw [hend] at hrun hreturn
    obtain rfl : result = .ok report := hreturn
    exact hrun.now
  obtain ⟨ca, leaf, hreported⟩ := hends
  have hsettled := hreported.settled
  have hcert := hsettled.kept.caCert
  by_cases hage : 7 ≤ leaf.remainingDays r.now
  · have hreuse := hsettled.reuse fresh hreported.published hage
    have hcondition : report.leafEvent = "reused" ∨ 7 ≤ ca.remainingDays r.now := by
      rcases hreported.aged with ⟨hevent, -⟩ | ⟨-, -, hiff⟩
      · exact .inl hevent
      · exact .inr (hiff.mp hage)
    rw [hreuse]
    refine ⟨ca, _, hcert, rfl, hreported.caFingerprint.symm, ?_⟩
    rw [if_pos hcondition]
    exact ⟨rfl, hreported.leafFingerprint.symm, rfl⟩
  · rcases hreported.aged with ⟨-, hweek⟩ | ⟨hevent, hsort, hiff⟩
    · exact absurd hweek hage
    · obtain ⟨report', hok, hfingerprint, hrotated⟩ :=
        hsettled.rotate fresh hreported.published hsort (not_le.mp hage)
      refine ⟨ca, report', hcert, hok, hfingerprint.trans hreported.caFingerprint.symm, ?_⟩
      rw [if_neg (not_or.mpr ⟨hevent, fun hca => hage (hiff.mpr hca)⟩)]
      exact hrotated

end

section Samples

attribute [local instance] serialCerts

/-- A CA with some days left. -/
def standingCa (left : ℤ) : Certificate ℕ where
  subject := "CA"
  issuer := "CA"
  publicKey := 1
  signedBy := 1
  serial := 1
  notAfter := days left
  sans := none

/-- The files of a CA. -/
def standingStore (left : ℤ) : PkiStore ℕ := { caKey := some 1, caCert := some (standingCa left) }

/-- The first run issues the leaf of the CA that is there, and the second one reuses it. -/
theorem ensure_again_standing : ∃ report report',
    (ensure firstRun (standingStore 400)).1 = .ok report ∧ report.leafEvent = "created" ∧
    (ensure (firstRun.again firstRun) ((standingStore 400).afterEnsure firstRun)).1 = .ok report' ∧
    report'.caFingerprint = fingerprint (standingCa 400) ∧ report'.leafEvent = "reused" ∧
    report'.leafFingerprint = report.leafFingerprint := by
  have hreturn : ∃ report, (ensure firstRun (standingStore 400)).1 = .ok report ∧
      ((standingStore 400).afterEnsure firstRun).caCert = some (standingCa 400) ∧
      report.caFingerprint = fingerprint (standingCa 400) ∧ report.leafEvent = "created" ∧
      7 ≤ (standingCa 400).remainingDays 0 :=
    ⟨_, rfl, rfl, rfl, rfl, by decide⟩
  obtain ⟨report, hok, hcert, hfingerprint, hevent, hage⟩ := hreturn
  have hwhole : ∀ cert, (standingStore 400).caCert = some cert → Whole cert.notAfter := by
    rintro _ ⟨⟩
    exact (by decide : wholeSeconds (days 400) = days 400)
  obtain ⟨ca, report', hcert', hok', hsame, hagain⟩ :=
    ensure_again firstRun firstRun (standingStore 400) hwhole hok
  rw [hcert] at hcert'
  cases hcert'
  rw [if_pos (.inr hage)] at hagain
  exact ⟨report, report', hok, hevent, hok', hsame.trans hfingerprint, hagain.1, hagain.2.1⟩

/-- The leaf that is issued for a CA with one day left is issued again by the second run. -/
theorem ensure_again_rotates :
    ((ensure firstRun (standingStore 1)).1.toOption.map (·.leafEvent) = some "created") ∧
    (ensure (firstRun.again firstRun) ((standingStore 1).afterEnsure firstRun)).1.toOption.map
      (·.leafEvent) = some "rotated" := by
  decide +kernel

end Samples

end Perpetua.Tls

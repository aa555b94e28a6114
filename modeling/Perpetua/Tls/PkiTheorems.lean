import Mathlib.Data.List.Induction
import Perpetua.Tls.Pki

/-!
# A stable CA

The pin is written before anything that shows the CA to a peer, and no CA is made behind a pin. So
once there is a pin, every run keeps the CA, whatever crashes have come before.
-/

namespace Perpetua.Tls

open Logged (Passing Triple)

variable {κ : Type}

/-! ## Fingerprints -/

theorem hexDigit_digitChar : ∀ n < 16,
    ((Nat.digitChar n).isDigit || ('a' ≤ Nat.digitChar n && Nat.digitChar n ≤ 'f')) = true := by
  decide

theorem isHex64_hexdigest (message : List (BitVec 8)) :
    isHex64 (Sha256.hexdigest message) = true := by
  have hdigits : ∀ c ∈ (Sha256.hexdigest message).toList,
      (c.isDigit || ('a' ≤ c && c ≤ 'f')) = true := by
    intro c hc
    obtain ⟨n, hn, rfl⟩ := Sha256.mem_hexdigest hc
    exact hexDigit_digitChar n hn
  have hlast : (Sha256.hexdigest message).toList.getLast? ≠ some '\n' := by
    intro h
    have hfeed := hdigits _ (List.mem_of_getLast? h)
    revert hfeed
    decide
  simp only [isHex64, if_neg hlast, Sha256.length_hexdigest, decide_true, Bool.true_and,
    List.all_eq_true]
  exact hdigits

/-! ## The invariant -/

variable [CertLib κ]

/-- Nothing shows a CA yet. -/
structure Hidden (f : PkiStore κ) : Prop where
  pin : f.pin = .missing
  publicCa : ∀ name, f.publicCa name = none
  leafChain : f.leafChain = none

/-- The CA on disk is the pinned one, and it is the one that is published and signs the leaf. -/
structure Issued (ca : Certificate κ) (f : PkiStore κ) : Prop where
  caKey : f.caKey = some ca.publicKey
  caCert : f.caCert = some ca
  pin : ∃ pinnedAt, f.pin = .json (pinPayload (fingerprint ca) pinnedAt)
  publicCa : ∀ name cert, f.publicCa name = some cert → cert = ca
  leafChain : ∀ leaf rest, f.leafChain = some (leaf :: rest) → leaf.signedBy = ca.publicKey

def Sound (f : PkiStore κ) : Prop := Hidden f ∨ ∃ ca, Issued ca f

/-- The leaf on disk has its key. -/
def LeafPaired (f : PkiStore κ) : Prop :=
  ∃ leaf rest, f.leafChain = some (leaf :: rest) ∧ f.leafKey = some leaf.publicKey

variable {ca : Certificate κ} {f : PkiStore κ}

theorem Issued.write_leafKey (h : Issued ca f) (key : κ) : Issued ca (f.apply (.leafKey key)) :=
  ⟨h.caKey, h.caCert, h.pin, h.publicCa, h.leafChain⟩

theorem Issued.write_leafChain (h : Issued ca f) {leaf : Certificate κ}
    (hleaf : leaf.signedBy = ca.publicKey) (rest : List (Certificate κ)) :
    Issued ca (f.apply (.leafChain (leaf :: rest))) := by
  refine ⟨h.caKey, h.caCert, h.pin, h.publicCa, fun leaf' rest' heq => ?_⟩
  cases heq
  exact hleaf

theorem Issued.write_publicCa (h : Issued ca f) (name : String) :
    Issued ca (f.apply (.publicCa name ca)) := by
  refine ⟨h.caKey, h.caCert, h.pin, fun name' cert heq => ?_, h.leafChain⟩
  simp only [PkiStore.apply] at heq
  split at heq
  · exact (Option.some.inj heq).symm
  · exact h.publicCa name' cert heq

theorem Issued.write_sums (h : Issued ca f) (text : String) : Issued ca (f.apply (.sums text)) :=
  ⟨h.caKey, h.caCert, h.pin, h.publicCa, h.leafChain⟩

omit [CertLib κ] in
theorem LeafPaired.write_publicCa (h : LeafPaired f) (name : String) (cert : Certificate κ) :
    LeafPaired (f.apply (.publicCa name cert)) := h

omit [CertLib κ] in
theorem LeafPaired.write_sums (h : LeafPaired f) (text : String) :
    LeafPaired (f.apply (.sums text)) := h

/-- The pin that a run has stored is read back. -/
theorem Issued.loadPin (h : Issued ca f) {r : PkiRun κ} {pinned : Option String}
    (hload : r.loadPin f = .ok pinned) : pinned = some (fingerprint ca) := by
  obtain ⟨pinnedAt, hpin⟩ := h.pin
  unfold PkiRun.loadPin at hload
  split at hload
  · cases hload
  · rw [hpin] at hload
    simp only [pinPayload, Entries.get?, if_pos, fingerprint, isHex64_hexdigest] at hload
    cases hload
    rfl

omit [CertLib κ] in
theorem Hidden.loadPin (h : Hidden f) {r : PkiRun κ} {pinned : Option String}
    (hload : r.loadPin f = .ok pinned) : pinned = none := by
  unfold PkiRun.loadPin at hload
  split at hload
  · cases hload
  · rw [h.pin] at hload
    cases hload
    rfl

variable [DecidableEq κ]

theorem Issued.loadCa (h : Issued ca f) (r : PkiRun κ) :
    r.loadCa f = none ∨ r.loadCa f = some (ca, ca.publicKey) := by
  unfold PkiRun.loadCa
  split
  · exact .inl rfl
  · rw [h.caCert, h.caKey]
    right
    simp

omit [CertLib κ] in
theorem loadCa_eq_some {r : PkiRun κ} {pair : Certificate κ × κ} (h : r.loadCa f = some pair) :
    f.caCert = some pair.1 ∧ f.caKey = some pair.1.publicKey ∧ pair.2 = pair.1.publicKey := by
  unfold PkiRun.loadCa at h
  split at h
  · cases h
  split at h
  · rename_i cert key hcert hkey
    split at h
    · cases h
    · rename_i hpair
      cases h
      rw [not_not] at hpair
      exact ⟨hcert, by rw [hkey, hpair], hpair.symm⟩
  · cases h

/-! ## The CA -/

/-- The states of a run: every one has `I`, and the current one `Q`. -/
abbrev Way (start : PkiStore κ) (I Q : PkiStore κ → Prop) : List (PkiWrite κ) → Prop :=
  Passing PkiStore.apply start I Q

variable {start : PkiStore κ} {I Q : PkiStore κ → Prop} {r : PkiRun κ}

omit [CertLib κ] [DecidableEq κ] in
theorem triple_files {R : List (PkiWrite κ) → Prop} : Triple (Way start I Q) (files start)
    (fun f => Way start I fun s => Q s ∧ f = s) R :=
  Triple.read (g := fun s => s)

omit [CertLib κ] [DecidableEq κ] in
theorem Way.anyhow (log : List (PkiWrite κ)) (h : Way start I Q log) :
    Way start I (fun _ => True) log := h.weaken fun _ _ => trivial

/-- A run that finds a pinned CA keeps it. -/
theorem triple_ensureCa_issued :
    Triple (Way start I (Issued ca)) (ensureCa r start)
      (fun pair log => Way start I (Issued ca) log ∧ pair = (ca, ca.publicKey))
      (Way start I fun _ => True) := by
  unfold ensureCa
  refine .bind triple_files fun f => .assuming (c := Issued ca f) ?_ fun hf => ?_
  · intro log h
    obtain ⟨hissued, rfl⟩ := h.now
    exact hissued
  refine .bind (Q := fun pinned log => Way start I (Issued ca) log ∧
    pinned = some (fingerprint ca)) (.lift ?_ Way.anyhow) fun pinned => ?_
  · intro pinned log hok h
    exact ⟨h.weaken fun _ hs => hs.1, hf.loadPin hok⟩
  refine .assuming (fun _ h => h.2) ?_
  rintro rfl
  refine .bind (Q := fun pair log => Way start I (Issued ca) log ∧ pair = (ca, ca.publicKey)) ?_
    fun pair => .assuming (fun _ h => h.2) ?_
  · unfold loadOrCreateCa
    rcases hf.loadCa r with hload | hload <;> rw [hload]
    · exact .raise fun _ h => h.1.anyhow
    · exact .pure fun _ h => ⟨h.1, rfl⟩
  rintro rfl
  refine .bind (Q := fun _ log => Way start I (Issued ca) log) ?_ fun _ => ?_
  · unfold pinCa
    refine .ite (fun hne => absurd rfl hne) fun _ => ?_
    exact .pure fun _ h => h.1
  · refine .ite (fun _ => .raise Way.anyhow) fun _ => ?_
    exact .pure fun _ h => ⟨h, rfl⟩

/-- A run that finds nothing exposed pins the CA that it goes on with. -/
theorem triple_ensureCa_hidden :
    Triple (Way start Sound Hidden) (ensureCa r start)
      (fun pair log => Way start Sound (Issued pair.1) log ∧ pair.2 = pair.1.publicKey)
      (Way start Sound fun _ => True) := by
  unfold ensureCa
  refine .bind triple_files fun f => .assuming (c := Hidden f) ?_ fun hf => ?_
  · intro log h
    obtain ⟨hhidden, rfl⟩ := h.now
    exact hhidden
  refine .bind (Q := fun pinned log => Way start Sound (fun s => Hidden s ∧ s = f) log ∧
    pinned = none) (.lift ?_ Way.anyhow) fun pinned => ?_
  · intro pinned log hok h
    exact ⟨h.weaken fun s hs => ⟨hs.1, hs.2.symm⟩, hf.loadPin hok⟩
  refine .assuming (fun _ h => h.2) ?_
  rintro rfl
  refine .bind (Q := fun pair => Way start Sound fun s => Hidden s ∧ s.caCert = some pair.1 ∧
    s.caKey = some pair.1.publicKey ∧ pair.2 = pair.1.publicKey) ?_ fun pair => ?_
  · unfold loadOrCreateCa
    split
    · rename_i pair hload
      refine .pure fun _ h => h.1.weaken fun s hs => ?_
      rw [hs.2]
      exact ⟨hf, loadCa_eq_some hload⟩
    · rename_i heq
      cases heq
    · refine .bind (Q := fun _ => Way start Sound fun s => Hidden s ∧ s.caKey = some r.caKey)
        (.weaken (.write (Q := Hidden) ?_) (fun _ h => h.1.weaken fun _ hs => hs.1)
          (fun _ _ h => h) (fun _ h => h)) fun _ => ?_
      · intro s hs
        have hkept : Hidden (s.apply (.caKey r.caKey)) := ⟨hs.pin, hs.publicCa, hs.leafChain⟩
        exact ⟨.inl hkept, hkept, rfl⟩
      refine .bind (.write ?_) fun _ => .pure fun _ h => h
      intro s hs
      have hkept : Hidden (s.apply (.caCert r.newCa)) := ⟨hs.1.pin, hs.1.publicCa, hs.1.leafChain⟩
      exact ⟨.inl hkept, hkept, rfl, hs.2, rfl⟩
  refine .bind (Q := fun _ log => Way start Sound (Issued pair.1) log ∧
    pair.2 = pair.1.publicKey) ?_ fun _ => ?_
  · refine .assuming (fun _ h => h.now.2.2.2) fun hpair => ?_
    refine .weaken (.write (S := Issued pair.1) ?_) (fun _ h => h)
      (fun _ _ h => ⟨h, hpair⟩) fun _ h => h
    intro s hs
    have hissued : Issued pair.1 (s.apply (.pin (pinPayload (fingerprint pair.1) r.pinnedAt))) := by
      refine ⟨hs.2.2.1, hs.2.1, ⟨r.pinnedAt, rfl⟩, ?_, ?_⟩
      · intro name cert hcert
        have hnone : s.publicCa name = some cert := hcert
        rw [hs.1.publicCa] at hnone
        cases hnone
      · intro leaf rest hleaf
        have hnone : s.leafChain = some (leaf :: rest) := hleaf
        rw [hs.1.leafChain] at hnone
        cases hnone
    exact ⟨.inr ⟨_, hissued⟩, hissued⟩
  · refine .ite (fun _ => .raise fun _ h => h.1.anyhow) fun _ => ?_
    exact .pure fun _ h => h

/-! ## The leaf and the public CA -/

theorem leafPaired_of_leafProblem (h : r.leafProblem f ca = .ok "") : LeafPaired f := by
  unfold PkiRun.leafProblem at h
  split at h
  · simp at h
  split at h
  · rename_i leaf rest key hleaf hkey
    split at h
    · simp at h
    · rename_i hpair
      rw [not_not] at hpair
      exact ⟨leaf, rest, hleaf, by rw [hkey, hpair]⟩
  · simp at h

omit [DecidableEq κ] in
theorem triple_renewLeaf (hI : ∀ s, Issued ca s → I s) {problem : String}
    (hproblem : problem = "" → LeafPaired f) :
    Triple (Way start I fun s => Issued ca s ∧ s = f) (renewLeaf r ca ca.publicKey problem)
      (fun _ => Way start I fun s => Issued ca s ∧ LeafPaired s) (Way start I fun _ => True) := by
  unfold renewLeaf
  refine .ite (fun hreuse => .pure fun _ h => h.weaken ?_) fun _ => ?_
  · rintro s ⟨hs, rfl⟩
    exact ⟨hs, hproblem hreuse⟩
  refine .bind (Q := fun _ => Way start I fun s => Issued ca s ∧ LeafPaired s) ?_ fun _ =>
    .pure fun _ h => h
  unfold issueLeaf
  refine .bind (Q := fun _ => Way start I (Issued ca))
    (.lift (fun _ _ _ h => h.weaken fun _ hs => hs.1) Way.anyhow) fun ips =>
    .ite (fun _ => .raise Way.anyhow) fun _ => ?_
  refine .bind (Q := fun _ => Way start I fun s => Issued ca s ∧ s.leafKey = some r.leafKey)
    (.write fun s hs => ?_) fun _ => .write fun s hs => ?_
  · have hkey := hs.write_leafKey r.leafKey
    exact ⟨hI _ hkey, hkey, rfl⟩
  · have hissuer : (r.newLeaf ca ca.publicKey ips).signedBy = ca.publicKey := rfl
    have hchain := hs.1.write_leafChain hissuer [ca]
    exact ⟨hI _ hchain, hchain, _, _, rfl, hs.2⟩

theorem triple_writePublicCa (hI : ∀ s, Issued ca s → I s) :
    Triple (Way start I fun s => Issued ca s ∧ LeafPaired s ∧ s = f) (writePublicCa r f ca)
      (fun _ => Way start I fun s => Issued ca s ∧ LeafPaired s ∧ s.publicCa r.publicName = some ca)
      (Way start I fun _ => True) := by
  have hwrite : Triple (Way start I fun s => Issued ca s ∧ LeafPaired s ∧ s = f)
      (Logged.emit (.publicCa r.publicName ca) : PkiM κ Unit)
      (fun _ => Way start I fun s => Issued ca s ∧ LeafPaired s ∧
        s.publicCa r.publicName = some ca) (Way start I fun _ => True) := by
    refine .write fun s hs => ?_
    have hkept := hs.1.write_publicCa r.publicName
    exact ⟨hI _ hkept, hkept, hs.2.1.write_publicCa _ _, by simp [PkiStore.apply]⟩
  unfold writePublicCa
  split
  · exact hwrite
  · rename_i old hold
    refine .ite (fun _ => .raise Way.anyhow) fun _ => .ite (fun _ => hwrite) fun heq => ?_
    refine .pure fun _ h => h.weaken ?_
    rintro s ⟨hs, hleaf, rfl⟩
    rw [not_not] at heq
    rw [heq] at hold
    exact ⟨hs, hleaf, hold⟩

theorem triple_publish (hI : ∀ s, Issued ca s → I s) :
    Triple (Way start I fun s => Issued ca s ∧ LeafPaired s) (publish r start ca)
      (fun _ => Way start I fun s => Issued ca s ∧ LeafPaired s ∧ s.publicCa r.publicName = some ca)
      (Way start I fun _ => True) := by
  unfold publish
  refine .bind triple_files fun f => .bind (.weaken (triple_writePublicCa (f := f) hI)
    (fun _ h => h.weaken fun s hs => ⟨hs.1.1, hs.1.2, hs.2.symm⟩) (fun _ _ h => h)
    fun _ h => h) fun _ => ?_
  refine .bind triple_files fun f => .ite (fun _ => .raise Way.anyhow) fun _ => ?_
  refine .ite (fun _ => .pure fun _ h => h.weaken fun _ hs => hs.1) fun _ => ?_
  refine .bind (.write (S := fun s => Issued ca s ∧ LeafPaired s ∧
    s.publicCa r.publicName = some ca) fun s hs => ?_) fun _ => .pure fun _ h => h
  obtain ⟨⟨hissued, hleaf, hpublic⟩, -⟩ := hs
  have hkept := hissued.write_sums
    (Sha256.hexdigest ((f.publicCa r.publicName).elim [] CertLib.pem) ++ "  " ++ r.publicName ++ "\n")
  exact ⟨hI _ hkept, hkept, hleaf.write_sums _, hpublic⟩

/-! ## Runs -/

/-- What a run that returns has on disk. -/
structure Served (r : PkiRun κ) (ca : Certificate κ) (report : PkiReport) (f : PkiStore κ) :
    Prop where
  issued : Issued ca f
  leaf : LeafPaired f
  publicCa : f.publicCa r.publicName = some ca
  caFingerprint : report.caFingerprint = fingerprint ca

theorem triple_ensureLocked {P : List (PkiWrite κ) → Prop} {C : Certificate κ → Prop}
    (hI : ∀ ca s, C ca → Issued ca s → I s)
    (hca : Triple P (ensureCa r start) (fun pair log => (Way start I (Issued pair.1) log ∧
      pair.2 = pair.1.publicKey) ∧ C pair.1) (Way start I fun _ => True)) :
    Triple P (ensureLocked r start)
      (fun report => Way start I fun s => ∃ ca, C ca ∧ Served r ca report s)
      (Way start I fun _ => True) := by
  unfold ensureLocked
  refine .bind hca fun pair => ?_
  obtain ⟨ca, key⟩ := pair
  refine .assuming (fun _ h => h.2) fun hC => .assuming (fun _ h => h.1.2) fun hkey => ?_
  obtain rfl : key = ca.publicKey := hkey
  have hthis := fun s => hI ca s hC
  refine .bind (.weaken triple_files (fun _ h => h.1.1) (fun _ _ h => h) fun _ h => h) fun f => ?_
  refine .bind (Q := fun problem log => Way start I (fun s => Issued ca s ∧ s = f) log ∧
    (problem = "" → LeafPaired f)) (.lift ?_ Way.anyhow) fun problem => ?_
  · intro problem log hok h
    refine ⟨h.weaken fun _ hs => ⟨hs.1, hs.2.symm⟩, ?_⟩
    rintro rfl
    exact leafPaired_of_leafProblem hok
  refine .assuming (fun _ h => h.2) fun hproblem => ?_
  refine .bind (.weaken (triple_renewLeaf hthis hproblem) (fun _ h => h.1) (fun _ _ h => h)
    fun _ h => h) fun leafEvent => ?_
  refine .bind triple_files fun f => ?_
  split
  · exact .raise Way.anyhow
  · exact .raise Way.anyhow
  · refine .bind (.weaken (triple_publish hthis) (fun _ h => h.weaken fun _ hs => hs.1)
      (fun _ _ h => h) fun _ h => h) fun digest => ?_
    refine .pure fun _ h => h.weaken fun s hs => ?_
    exact ⟨ca, hC, hs.1, hs.2.1, hs.2.2, rfl⟩

theorem ensure_hidden (r : PkiRun κ) (h : Hidden f) :
    Way f Sound (fun _ => True) (ensure r f).2 := by
  have hsound : ∀ (ca : Certificate κ) (s : PkiStore κ), True → Issued ca s → Sound s :=
    fun ca _ _ hs => .inr ⟨ca, hs⟩
  have htriple := @triple_ensureLocked _ _ _ f Sound r _ _ hsound
    (triple_ensureCa_hidden.weaken (fun _ h => h) (fun _ _ h => ⟨h, trivial⟩) fun _ h => h)
  exact (htriple.weaken (fun _ h => h) (fun _ log h => Way.anyhow log h) fun _ h => h).log
    (.nil (.inl h) h)

theorem triple_ensure_issued (r : PkiRun κ) (f : PkiStore κ) :
    Triple (Way f (Issued ca) (Issued ca)) (ensureLocked r f)
      (fun report => Way f (Issued ca) (Served r ca report)) (Way f (Issued ca) fun _ => True) := by
  refine (@triple_ensureLocked _ _ _ f (Issued ca) r _ (· = ca) ?_
    (triple_ensureCa_issued.weaken (fun _ h => h) ?_ fun _ h => h)).weaken (fun _ h => h) ?_
    fun _ h => h
  · rintro _ s rfl hs
    exact hs
  · rintro pair log ⟨h, rfl⟩
    exact ⟨⟨h, rfl⟩, rfl⟩
  · intro report log h
    refine h.weaken ?_
    rintro s ⟨_, rfl, hs⟩
    exact hs

theorem Issued.ensure (h : Issued ca f) (r : PkiRun κ) :
    Way f (Issued ca) (fun _ => True) (ensure r f).2 :=
  ((triple_ensure_issued r f).weaken (fun _ h => h) (fun _ log h => Way.anyhow log h)
    fun _ h => h).log (.nil h h)

/-- The files after a run that is not interrupted. -/
def PkiStore.afterEnsure (f : PkiStore κ) (r : PkiRun κ) : PkiStore κ :=
  (Tls.ensure r f).2.foldl PkiStore.apply f

theorem Issued.served (h : Issued ca f) {r : PkiRun κ} {report : PkiReport}
    (hreturn : (Tls.ensure r f).1 = .ok report) : Served r ca report (f.afterEnsure r) := by
  have hrun := @triple_ensure_issued _ _ ca _ r f [] (.nil h h)
  unfold PkiStore.afterEnsure
  unfold Tls.ensure at hreturn ⊢
  rcases hend : ensureLocked r f [] with ⟨result, writes⟩
  rw [hend] at hrun hreturn
  obtain rfl : result = .ok report := hreturn
  exact hrun.now

/-- The files after runs that may each be interrupted. -/
def reached (runs : List (PkiRun κ × ℕ)) : PkiStore κ := runs.foldl PkiStore.afterRun {}

theorem Sound.afterRun (h : Sound f) (run : PkiRun κ × ℕ) : Sound (f.afterRun run) := by
  rcases h with h | ⟨ca, h⟩
  · exact (ensure_hidden run.1 h).throughout _ (List.take_prefix _ _)
  · exact .inr ⟨ca, (h.ensure run.1).throughout _ (List.take_prefix _ _)⟩

theorem sound_reached (runs : List (PkiRun κ × ℕ)) : Sound (reached runs) := by
  induction runs using List.reverseRecOn with
  | nil => exact .inl ⟨rfl, fun _ => rfl, rfl⟩
  | append_singleton runs run ih =>
      rw [reached, List.foldl_concat]
      exact Sound.afterRun ih run

theorem Issued.reached {runs : List (PkiRun κ × ℕ)} (h : Issued ca (Tls.reached runs))
    (later : List (PkiRun κ × ℕ)) : Issued ca (Tls.reached (runs ++ later)) := by
  induction later using List.reverseRecOn with
  | nil => rwa [List.append_nil]
  | append_singleton later run ih =>
      rw [← List.append_assoc, Tls.reached, List.foldl_concat]
      exact (ih.ensure run.1).throughout _ (List.take_prefix _ _)

/-- After any runs, once there is a pin or a public CA, every later run that returns reports one
fingerprint: that of the pin and of the CA that it publishes and that signs the leaf. -/
theorem ensure_stable (runs : List (PkiRun κ × ℕ))
    (hexposed : (reached runs).pin ≠ .missing ∨ ∃ name, (reached runs).publicCa name ≠ none) :
    ∃ fp, ∀ (later : List (PkiRun κ × ℕ)) (r : PkiRun κ) (report : PkiReport),
      (ensure r (reached (runs ++ later))).1 = .ok report →
      report.caFingerprint = fp ∧
      (∃ pinnedAt, ((reached (runs ++ later)).afterEnsure r).pin =
        .json (pinPayload fp pinnedAt)) ∧
      ∃ ca leaf rest,
        ((reached (runs ++ later)).afterEnsure r).publicCa r.publicName = some ca ∧
        fingerprint ca = fp ∧
        ((reached (runs ++ later)).afterEnsure r).leafChain = some (leaf :: rest) ∧
        ((reached (runs ++ later)).afterEnsure r).leafKey = some leaf.publicKey ∧
        leaf.signedBy = ca.publicKey := by
  obtain ⟨ca, hissued⟩ : ∃ ca, Issued ca (reached runs) := by
    rcases sound_reached runs with hhidden | hissued
    · rcases hexposed with hpin | ⟨name, hpublic⟩
      · exact absurd hhidden.pin hpin
      · exact absurd (hhidden.publicCa name) hpublic
    · exact hissued
  refine ⟨fingerprint ca, fun later r report hreturn => ?_⟩
  have hserved := (hissued.reached later).served hreturn
  obtain ⟨leaf, rest, hchain, hkey⟩ := hserved.leaf
  exact ⟨hserved.caFingerprint, hserved.issued.pin, ca, leaf, rest, hserved.publicCa, rfl, hchain,
    hkey, hserved.issued.leafChain leaf rest hchain⟩

section Samples

attribute [local instance] serialCerts

def firstRun : PkiRun ℕ where
  hostname := "node"
  now := 0
  pinnedAt := "2026-01-01T00:00:00+00:00"
  caKey := 1
  leafKey := 2
  caSerial := 1
  leafSerial := 2

/-- The first run dies behind the pin, and the next one returns. -/
theorem ensure_stable_pinned :
    (ensure firstRun (reached [(firstRun, 3)])).1.toOption.map (·.leafEvent) = some "created" ∧
    ∃ fp, ∀ (later : List (PkiRun ℕ × ℕ)) (r : PkiRun ℕ) (report : PkiReport),
      (ensure r (reached ([(firstRun, 3)] ++ later))).1 = .ok report →
      report.caFingerprint = fp := by
  have hpin : (reached [(firstRun, 3)]).pin ≠ .missing := by
    intro h
    cases h
  obtain ⟨fp, hstable⟩ := ensure_stable [(firstRun, 3)] (.inl hpin)
  exact ⟨by decide +kernel, fp, fun later r report hreturn => (hstable later r report hreturn).1⟩

end Samples

end Perpetua.Tls

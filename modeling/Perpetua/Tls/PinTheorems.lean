import Perpetua.Lib.Machine
import Perpetua.Tls.Lemmas.SelfSigned

/-!
# A pin that is kept

A pin is only kept when it can be compared: a pin file that cannot be read or is no JSON counts as
no pin at all.
-/

namespace Perpetua.Tls

variable {κ : Type} [CertLib κ] {cfg : TlsConfig} {c : TlsCall κ} {f start : TlsFiles κ}

/-! ## One call -/

/-- The pin file holds what a fingerprint can be compared with. -/
def Comparable (pin : StoredPin) : Prop :=
  ∃ fields pinned, pin = .json (.obj fields) ∧
    Entries.get? fields "fingerprint" = some pinned ∧ sliceable pinned = true

/-- The call has made a certificate on purpose. -/
def Regenerated (cfg : TlsConfig) (c : TlsCall κ) (f : TlsFiles κ) : Prop :=
  (generateCert cfg c f []).1 = .ok .rotated ∨ (generateCert cfg c f []).1 = .ok .sanReissued

/-- The call keeps the pin, and the certificate that it has is the pinned one or is refused. -/
structure Checked (cfg : TlsConfig) (c : TlsCall κ) (f : TlsFiles κ) : Prop where
  kept : (cfg.after c f).pin = f.pin
  checked : (∃ mode, (generateCert cfg c f []).1 = .ok mode) →
    (∃ cert, (cfg.after c f).cert = .holds cert ∧ Pinned f.pin (fingerprint cert)) ∨
      ∃ label pinned current why,
        cfg.result c f = .error (.fingerprintMismatch label pinned current why)

/-- Only a certificate that is made on purpose changes a pin. -/
def PinKept (cfg : TlsConfig) (c : TlsCall κ) (f : TlsFiles κ) : Prop :=
  f.pin ≠ .missing → ¬Regenerated cfg c f → Checked cfg c f

/-- A pin is only met by a call that replaces it, that has no certificate or that can compare. -/
def PinUsable (cfg : TlsConfig) (c : TlsCall κ) (f : TlsFiles κ) : Prop :=
  f.pin ≠ .missing → Due cfg c.now f ∨ (¬Reusable cfg c.now f ∧ ∃ e, cfg.newIps = .error e) ∨
    Comparable f.pin

omit [CertLib κ] in
theorem comparable_iff :
    Comparable f.pin ↔ ∃ pinned, loadPinned f = .ok (some pinned) ∧ sliceable pinned = true := by
  constructor
  · rintro ⟨fields, pinned, hpin, hget, hslice⟩
    refine ⟨pinned, loadPinned_eq_some.mpr ⟨?_, fields, hpin, hget⟩, hslice⟩
    rintro rfl
    cases hslice
  · rintro ⟨pinned, hload, hslice⟩
    obtain ⟨-, fields, hpin, hget⟩ := loadPinned_eq_some.mp hload
    exact ⟨fields, pinned, hpin, hget, hslice⟩

theorem checked_refused {e : TlsError} (h : ¬Reusable cfg c.now f) (hips : cfg.newIps = .error e) :
    Checked cfg c f := by
  obtain ⟨hgenerate, hensure⟩ := ensureCertificate_refused h hips
  refine ⟨?_, fun ⟨mode, hmode⟩ => ?_⟩
  · unfold TlsConfig.after TlsConfig.writes
    rw [hensure]
    rfl
  · rw [hgenerate] at hmode
    cases hmode

section

variable {log : List (TlsWrite κ)} {cert : Certificate κ} {why : String}

theorem Compares.mode (h : Compares cfg c f log cert why) :
    ∃ mode, (generateCert cfg c f []).1 = .ok mode := by
  obtain ⟨mode, hgenerate, -⟩ := h.obtained
  exact ⟨mode, by rw [hgenerate]⟩

theorem Compares.not_regenerated (h : Compares cfg c f log cert why) : ¬Regenerated cfg c f := by
  obtain ⟨mode, hgenerate, hrotated, hreissued⟩ := h.obtained
  unfold Regenerated
  rw [hgenerate]
  rintro (hmode | hmode)
  · exact hrotated (Except.ok.inj hmode)
  · exact hreissued (Except.ok.inj hmode)

theorem Compares.result (h : Compares cfg c f log cert why) :
    cfg.result c f = (compared c log (fingerprint cert)
      (fun pinned => mismatchError cfg pinned (fingerprint cert) why) (loadPinned f)).1 := by
  rw [TlsConfig.result, h.run]

theorem Compares.after (h : Compares cfg c f log cert why) :
    cfg.after c f = (compared c log (fingerprint cert)
      (fun pinned => mismatchError cfg pinned (fingerprint cert) why)
      (loadPinned f)).2.foldl TlsFiles.apply f := by
  rw [TlsConfig.after, TlsConfig.writes, h.run]

theorem Compares.not_checked_error (h : Compares cfg c f log cert why) {e : TlsError}
    (hload : loadPinned f = .error e) : ¬Checked cfg c f := by
  intro hchecked
  rcases hchecked.checked h.mode with ⟨cert', -, hpinned⟩ | ⟨label, pinned, current, why', hmismatch⟩
  · rw [pinned_iff, hload] at hpinned
    cases hpinned
  · rw [h.result, hload, compared] at hmismatch
    rcases loadPinned_error hload with rfl | rfl
    · cases hmismatch
    · cases hmismatch

theorem Compares.not_checked_none (h : Compares cfg c f log cert why)
    (hload : loadPinned f = .ok none) : ¬Checked cfg c f := by
  intro hchecked
  -- the pin is written, and a pin that is written is loaded
  have hstored := hchecked.kept
  rw [h.after, hload, compared, List.foldl_append] at hstored
  have hloaded : loadPinned f = .ok (some (.str (fingerprint cert))) :=
    pinned_iff.mp ⟨_, hstored.symm, rfl⟩
  rw [hload] at hloaded
  cases hloaded

theorem Compares.checked_some (h : Compares cfg c f log cert why) {pinned : Json.Value}
    (hload : loadPinned f = .ok (some pinned)) :
    Checked cfg c f ↔ sliceable pinned = true := by
  have hafter : cfg.after c f = log.foldl TlsFiles.apply f := by
    rw [h.after, hload]
    unfold compared
    dsimp only
    split
    · rfl
    · rfl
  have hkept : (cfg.after c f).pin = f.pin := by rw [hafter, h.kept]
  by_cases hdiffers : differs pinned (fingerprint cert) = true
  · have hresult : cfg.result c f = .error (mismatchError cfg pinned (fingerprint cert) why) := by
      rw [h.result, hload]
      unfold compared
      dsimp only
      rw [if_pos hdiffers]
    constructor
    · intro hchecked
      rcases hchecked.checked h.mode with ⟨cert', -, hpinned⟩ | ⟨_, _, _, _, hmismatch⟩
      · rw [pinned_iff, hload] at hpinned
        cases hpinned
        rfl
      · rw [hresult, mismatchError] at hmismatch
        by_contra hslice
        rw [if_neg hslice] at hmismatch
        cases hmismatch
    · intro hslice
      refine ⟨hkept, fun _ => .inr ⟨cfg.label, pinned, fingerprint cert, why, ?_⟩⟩
      rw [hresult, mismatchError, if_pos hslice]
  · have hsame : pinned = .str (fingerprint cert) := by
      cases pinned with
      | str fp => simpa [differs, Json.Value.str?] using hdiffers
      | _ => simp [differs, Json.Value.str?] at hdiffers
    rw [hsame]
    refine iff_of_true ⟨hkept, fun _ => .inl ⟨cert, ?_, ?_⟩⟩ rfl
    · rw [hafter, h.has]
    · rw [pinned_iff, hload, hsame]

theorem Compares.checked_iff (h : Compares cfg c f log cert why) :
    Checked cfg c f ↔ Comparable f.pin := by
  rw [comparable_iff]
  cases hload : loadPinned f with
  | error e => exact iff_of_false (h.not_checked_error hload) fun ⟨_, heq, _⟩ => by cases heq
  | ok pinned =>
      cases pinned with
      | none => exact iff_of_false (h.not_checked_none hload) fun ⟨_, heq, _⟩ => by cases heq
      | some pinned =>
          rw [h.checked_some hload]
          refine ⟨fun hslice => ⟨pinned, rfl, hslice⟩, fun ⟨_, heq, hslice⟩ => ?_⟩
          cases heq
          exact hslice

end

theorem pinKept_iff : PinKept cfg c f ↔ PinUsable cfg c f := by
  refine forall_congr' fun hpin => ?_
  by_cases hdue : Due cfg c.now f
  · refine iff_of_true (fun hregenerated => ?_) (.inl hdue)
    cases hips : cfg.newIps with
    | error e => exact checked_refused (fun hreuse => hreuse.not_due hdue) hips
    | ok ips =>
        refine absurd (.inl ?_) hregenerated
        rw [generateCert_due hdue hips]
  · by_cases hmake : Reusable cfg c.now f ∨ ∃ ips, cfg.newIps = .ok ips
    · obtain ⟨log, cert, why, hcompares⟩ := exists_compares hdue hmake
      rw [forall_prop_of_true hcompares.not_regenerated, hcompares.checked_iff]
      refine ⟨fun h => .inr (.inr h), fun h => (h.resolve_left hdue).resolve_left ?_⟩
      rintro ⟨hreuse, e, herror⟩
      obtain ⟨ips, hips⟩ := hmake.resolve_left hreuse
      rw [herror] at hips
      cases hips
    · obtain ⟨hreuse, hips⟩ := not_or.mp hmake
      cases herror : cfg.newIps with
      | ok ips => exact absurd ⟨ips, herror⟩ hips
      | error e =>
          exact iff_of_true (fun _ => checked_refused hreuse herror)
            (.inr (.inl ⟨hreuse, e, rfl⟩))

/-! ## Calls between replacements -/

/-- A call, or somebody else's replacement of the files. -/
inductive TlsStep (κ : Type)
  | call (cfg : TlsConfig) (c : TlsCall κ)
  | replace (files : TlsFiles κ)

def TlsStep.apply (f : TlsFiles κ) : TlsStep κ → TlsFiles κ
  | .call cfg c => cfg.after c f
  | .replace files => files

/-- `P` holds of a call. -/
def AtCall (P : TlsConfig → TlsCall κ → TlsFiles κ → Prop) (f : TlsFiles κ) : TlsStep κ → Prop
  | .call cfg c => P cfg c f
  | .replace _ => True

/-- A pin is never replaced but for a certificate that is made on purpose, exactly when every call
that finds a pin file can compare with it. -/
theorem pinKept_run_iff (f : TlsFiles κ) (steps : List (TlsStep κ)) :
    Machine.Along TlsStep.apply (AtCall PinKept) f steps ↔
      Machine.Along TlsStep.apply (AtCall PinUsable) f steps := by
  have hstep (f : TlsFiles κ) (step : TlsStep κ) :
      AtCall PinKept f step ↔ AtCall PinUsable f step := by
    cases step with
    | call cfg c => exact pinKept_iff
    | replace files => exact Iff.rfl
  exact ⟨Machine.Along.mono fun f step => (hstep f step).mp,
    Machine.Along.mono fun f step => (hstep f step).mpr⟩

section Samples

attribute [local instance] serialCerts

def sampleCall (now : ℤ) (key : ℕ) : TlsCall ℕ where
  now := now
  newKey := key
  serial := key
  pinnedAt := "2026-01-01T00:00:00+00:00"

/-- Behind the first call somebody puts another certificate, and a pin file that is no JSON. -/
def substituted : List (TlsStep ℕ) :=
  [.call {} (sampleCall 0 1),
    .replace { key := .holds 2, cert := .holds (newCert {} (sampleCall 0 2) []), pin := .notJson },
    .call {} (sampleCall 0 3)]

theorem not_pinKept_substituted :
    ¬Machine.Along TlsStep.apply (AtCall PinKept) ({} : TlsFiles ℕ) substituted := by
  rintro ⟨-, -, hlast, -⟩
  have hchecked := hlast (by intro h; cases h) (by rintro (h | h) <;> cases h)
  cases hchecked.kept

end Samples

end Perpetua.Tls

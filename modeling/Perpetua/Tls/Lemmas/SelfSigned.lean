import Perpetua.Tls.AlphaClaw

/-!
# Calls of the self-signed certificate

A call keeps, replaces or makes a certificate, and then compares it with the pin once.
-/

namespace Perpetua.Tls

variable {κ : Type} [CertLib κ] {cfg : TlsConfig} {c : TlsCall κ} {f start : TlsFiles κ}

/-! ## The certificate -/

/-- The certificate on disk is kept. -/
def Reusable (cfg : TlsConfig) (now : ℤ) (f : TlsFiles κ) : Prop :=
  ∃ cert, f.cert = .holds cert ∧ f.key ≠ .missing ∧ 7 < cert.remainingDays now ∧
    (cfg.reissueOnSanChange = true → cfg.covers cert = .ok true)

/-- A certificate is about to expire or misses a name. -/
def Outdated (cfg : TlsConfig) (now : ℤ) (cert : Certificate κ) : Prop :=
  cert.remainingDays now ≤ 7 ∨ cfg.reissueOnSanChange = true ∧ cfg.covers cert = .ok false

/-- The certificate on disk is replaced on purpose. -/
def Due (cfg : TlsConfig) (now : ℤ) (f : TlsFiles κ) : Prop :=
  ∃ cert, f.cert = .holds cert ∧ f.key ≠ .missing ∧ Outdated cfg now cert

theorem Reusable.not_due {now : ℤ} (h : Reusable cfg now f) : ¬Due cfg now f := by
  obtain ⟨cert, hcert, -, hdays, hcovers⟩ := h
  rintro ⟨cert', hcert', -, hdue⟩
  obtain rfl : cert' = cert := by
    rw [hcert] at hcert'
    exact (Slot.holds.inj hcert').symm
  rcases hdue with hdue | ⟨hreissue, hmiss⟩
  · omega
  · rw [hcovers hreissue] at hmiss
    cases hmiss

theorem generationMode_absent {now : ℤ} (h : ∀ cert, f.cert = .holds cert → f.key = .missing) :
    generationMode cfg now f = .renewed ∧ ¬Reusable cfg now f ∧ ¬Due cfg now f := by
  refine ⟨?_, ?_, ?_⟩
  · unfold generationMode
    cases hcert : f.cert with
    | missing => rfl
    | unreadable => cases f.key <;> rfl
    | holds cert => rw [h cert hcert]
  · rintro ⟨cert, hcert, hkey, -⟩
    exact hkey (h cert hcert)
  · rintro ⟨cert, hcert, hkey, -⟩
    exact hkey (h cert hcert)

omit [CertLib κ] in
theorem TlsFiles.present_or (f : TlsFiles κ) : (∀ cert, f.cert = .holds cert → f.key = .missing) ∨
    ∃ cert, f.cert = .holds cert ∧ f.key ≠ .missing := by
  by_cases hkey : f.key = .missing
  · exact .inl fun _ _ => hkey
  · cases hcert : f.cert with
    | holds cert => exact .inr ⟨cert, rfl, hkey⟩
    | _ => exact .inl fun _ h => by cases h

theorem generationMode_present {now : ℤ} {cert : Certificate κ} (hcert : f.cert = .holds cert)
    (hkey : f.key ≠ .missing) : generationMode cfg now f =
      if cert.remainingDays now > 7 then
        if cfg.reissueOnSanChange then
          match cfg.covers cert with
          | .error _ => .renewed
          | .ok covered => if covered then .reused else .rotated
        else .reused
      else .rotated := by
  unfold generationMode
  rw [hcert]
  cases hfile : f.key with
  | missing => exact absurd hfile hkey
  | _ => rfl

/-- What the generation mode says of the files. -/
theorem generationMode_cases (cfg : TlsConfig) (now : ℤ) (f : TlsFiles κ) :
    (generationMode cfg now f = .reused ∧ Reusable cfg now f) ∨
    (generationMode cfg now f = .rotated ∧ Due cfg now f) ∨
    (generationMode cfg now f = .renewed ∧ ¬Reusable cfg now f ∧ ¬Due cfg now f) := by
  rcases f.present_or with habsent | ⟨cert, hcert, hkey⟩
  · exact .inr (.inr (generationMode_absent habsent))
  rw [generationMode_present hcert hkey]
  split
  · rename_i hdays
    split
    · rename_i hreissue
      cases hcovers : cfg.covers cert with
      | error e =>
          refine .inr (.inr ⟨rfl, ?_, ?_⟩)
          · rintro ⟨cert', hcert', -, -, hcov⟩
            obtain rfl := Slot.holds.inj (hcert.symm.trans hcert')
            rw [hcov hreissue] at hcovers
            cases hcovers
          · rintro ⟨cert', hcert', -, hdue⟩
            obtain rfl := Slot.holds.inj (hcert.symm.trans hcert')
            rcases hdue with hdue | ⟨-, hmiss⟩
            · omega
            · rw [hmiss] at hcovers
              cases hcovers
      | ok covered =>
          cases covered with
          | true => exact .inl ⟨rfl, cert, hcert, hkey, hdays, fun _ => hcovers⟩
          | false => exact .inr (.inl ⟨rfl, cert, hcert, hkey, .inr ⟨hreissue, hcovers⟩⟩)
    · rename_i hreissue
      exact .inl ⟨rfl, cert, hcert, hkey, hdays, fun h => absurd h hreissue⟩
  · rename_i hdays
    exact .inr (.inl ⟨rfl, cert, hcert, hkey, .inl (by omega)⟩)

/-- The writes of a new certificate. -/
def made (cfg : TlsConfig) (c : TlsCall κ) (ips : List String) : List (TlsWrite κ) :=
  [.keyOpened, .key c.newKey, .certOpened, .cert (newCert cfg c ips)]

omit [CertLib κ] in
theorem tlsFiles_run (start : TlsFiles κ) (log : List (TlsWrite κ)) :
    tlsFiles start log = (.ok (log.foldl TlsFiles.apply start), log) := rfl

theorem generateCert_reused (h : generationMode cfg c.now f = .reused) :
    generateCert cfg c f [] = (.ok .reused, []) := by
  unfold generateCert
  rw [Logged.bind_ok (tlsFiles_run f []), List.foldl_nil, h]
  rfl

theorem TlsConfig.sanIps_of_newIps {ips : List String} (h : cfg.newIps = .ok ips) :
    cfg.sanIps = .ok ips := by
  unfold TlsConfig.newIps at h
  cases hbuilds : cfg.builds with
  | error e =>
      rw [hbuilds] at h
      cases h
  | ok _ =>
      rw [hbuilds] at h
      exact h

omit [CertLib κ] in
theorem writeCert_made {ips : List String} (hips : cfg.newIps = .ok ips) :
    writeCert cfg c [] = (.ok (), made cfg c ips) := by
  unfold writeCert
  rw [hips]
  rfl

omit [CertLib κ] in
theorem writeCert_refused {e : TlsError} (hips : cfg.newIps = .error e) :
    writeCert cfg c ([] : List (TlsWrite κ)) = (.error e, []) := by
  unfold writeCert
  rw [hips]
  rfl

theorem generateCert_made {ips : List String} (h : generationMode cfg c.now f ≠ .reused)
    (hips : cfg.newIps = .ok ips) :
    generateCert cfg c f [] = (.ok (generationMode cfg c.now f), made cfg c ips) := by
  unfold generateCert
  rw [Logged.bind_ok (tlsFiles_run f []), List.foldl_nil]
  cases hmode : generationMode cfg c.now f with
  | reused => exact absurd hmode h
  | _ => exact Logged.bind_ok (writeCert_made hips)

theorem generateCert_refused {e : TlsError} (h : generationMode cfg c.now f ≠ .reused)
    (hips : cfg.newIps = .error e) : generateCert cfg c f [] = (.error e, []) := by
  unfold generateCert
  rw [Logged.bind_ok (tlsFiles_run f []), List.foldl_nil]
  cases hmode : generationMode cfg c.now f with
  | reused => exact absurd hmode h
  | _ => exact Logged.bind_error (writeCert_refused hips)

/-! ## The pin -/

/-- The pin file holds `fp`. -/
def Pinned (pin : StoredPin) (fp : String) : Prop :=
  ∃ fields, pin = .json (.obj fields) ∧ Entries.get? fields "fingerprint" = some (.str fp)

omit [CertLib κ] in
theorem loadPinned_eq_some {pinned : Json.Value} : loadPinned f = .ok (some pinned) ↔
    pinned ≠ .null ∧
      ∃ fields, f.pin = .json (.obj fields) ∧ Entries.get? fields "fingerprint" = some pinned := by
  unfold loadPinned
  constructor
  · intro h
    split at h
    · simp at h
    · simp at h
    · simp at h
    · simp at h
    · rename_i fields hpin
      split at h
      · simp at h
      · simp at h
      · rename_i pinned' hnull hget
        obtain rfl : pinned' = pinned := by simpa using h
        exact ⟨by simpa using hnull, fields, hpin, hget⟩
    · simp at h
  · rintro ⟨hnull, fields, hpin, hget⟩
    rw [hpin]
    dsimp only
    rw [hget]
    cases pinned with
    | null => exact absurd rfl hnull
    | _ => rfl

omit [CertLib κ] in
theorem pinned_iff {fp : String} : Pinned f.pin fp ↔ loadPinned f = .ok (some (.str fp)) := by
  rw [loadPinned_eq_some]
  simp [Pinned]

omit [CertLib κ] in
theorem loadPinned_error {e : TlsError} (h : loadPinned f = .error e) :
    e = .valueError ∨ e = .attributeError := by
  unfold loadPinned at h
  split at h
  · simp at h
  · simp at h
  · simp at h
  · exact .inl (by simpa using h.symm)
  · split at h
    · simp at h
    · simp at h
    · simp at h
  · exact .inr (by simpa using h.symm)

omit [CertLib κ] in
theorem loadPinned_payload {fp pinnedAt : String} (h : f.pin = .json (fingerprintPayload fp pinnedAt)) :
    loadPinned f = .ok (some (.str fp)) := pinned_iff.mp ⟨_, h, rfl⟩

omit [CertLib κ] in
theorem loadPinned_unpinned (h : f.pin = .missing ∨ f.pin = .notJson) : loadPinned f = .ok none := by
  unfold loadPinned
  rcases h with h | h
  · rw [h]
  · rw [h]

/-! ## The comparison -/

/-- What a comparison with the pin makes of a certificate. -/
def compared (c : TlsCall κ) (log : List (TlsWrite κ)) (fp : String)
    (refuse : Json.Value → TlsError) :
    Except TlsError (Option Json.Value) → Except TlsError String × List (TlsWrite κ)
  | .error e => (.error e, log)
  | .ok none => (.ok fp, log ++ [.pinOpened, .pin (fingerprintPayload fp c.pinnedAt)])
  | .ok (some pinned) => if differs pinned fp then (.error (refuse pinned), log) else (.ok fp, log)

omit [CertLib κ] in
theorem storePinned_run (fp : String) (log : List (TlsWrite κ)) : storePinned c fp log =
    (.ok (), log ++ [.pinOpened, .pin (fingerprintPayload fp c.pinnedAt)]) := by
  rw [List.append_cons]
  rfl

theorem certFingerprint_holds {cert : Certificate κ} (hcert : f.cert = .holds cert) :
    certFingerprint f = .ok (fingerprint cert) := by
  unfold certFingerprint
  rw [hcert]

theorem verifyOrPin_eq {log : List (TlsWrite κ)} {cert : Certificate κ}
    (hcert : (log.foldl TlsFiles.apply start).cert = .holds cert) :
    verifyOrPin cfg c start log = compared c log (fingerprint cert)
      (fun pinned => mismatchError cfg pinned (fingerprint cert) cfg.changedText)
      (loadPinned (log.foldl TlsFiles.apply start)) := by
  unfold verifyOrPin
  rw [Logged.bind_ok (tlsFiles_run start log), certFingerprint_holds hcert,
    Logged.lift_ok_bind]
  cases loadPinned (log.foldl TlsFiles.apply start) with
  | error e => rfl
  | ok pinned =>
      rw [Logged.lift_ok_bind]
      cases pinned with
      | none => exact Logged.bind_ok (storePinned_run _ log)
      | some pinned =>
          unfold compared
          dsimp only
          split
          · rfl
          · rfl

theorem verifyRenewed_eq {log : List (TlsWrite κ)} {cert : Certificate κ}
    (hcert : (log.foldl TlsFiles.apply start).cert = .holds cert) :
    verifyRenewed cfg c start log = compared c log (fingerprint cert)
      (fun pinned => mismatchError cfg pinned (fingerprint cert) cfg.regeneratedText)
      (loadPinned (log.foldl TlsFiles.apply start)) := by
  unfold verifyRenewed
  rw [Logged.bind_ok (tlsFiles_run start log)]
  cases hload : loadPinned (log.foldl TlsFiles.apply start) with
  | error e => rfl
  | ok pinned =>
      rw [Logged.lift_ok_bind]
      cases pinned with
      | none =>
          show verifyOrPin cfg c start log = _
          rw [verifyOrPin_eq hcert, hload]
          rfl
      | some pinned =>
          dsimp only
          rw [certFingerprint_holds hcert, Logged.lift_ok_bind]
          unfold compared
          dsimp only
          split
          · rfl
          · rfl

/-! ## Calls -/

/-- A call is one comparison of `cert`, behind the writes `log`. -/
structure Compares (cfg : TlsConfig) (c : TlsCall κ) (f : TlsFiles κ) (log : List (TlsWrite κ))
    (cert : Certificate κ) (why : String) : Prop where
  has : (log.foldl TlsFiles.apply f).cert = .holds cert
  kept : (log.foldl TlsFiles.apply f).pin = f.pin
  obtained : ∃ mode, generateCert cfg c f [] = (.ok mode, log) ∧
    mode ≠ .rotated ∧ mode ≠ .sanReissued
  run : ensureCertificate cfg c f [] = compared c log (fingerprint cert)
    (fun pinned => mismatchError cfg pinned (fingerprint cert) why) (loadPinned f)

theorem compares_reused {cert : Certificate κ} (h : Reusable cfg c.now f)
    (hcert : f.cert = .holds cert) : Compares cfg c f [] cert cfg.changedText := by
  have hmode : generationMode cfg c.now f = .reused := by
    rcases generationMode_cases cfg c.now f with ⟨hmode, -⟩ | ⟨-, hdue⟩ | ⟨-, hnot, -⟩
    · exact hmode
    · exact absurd hdue h.not_due
    · exact absurd h hnot
  refine ⟨hcert, rfl, ⟨.reused, generateCert_reused hmode, by simp, by simp⟩, ?_⟩
  unfold ensureCertificate
  rw [Logged.bind_ok (generateCert_reused hmode)]
  exact verifyOrPin_eq hcert

theorem compares_renewed {ips : List String} (hreuse : ¬Reusable cfg c.now f)
    (hdue : ¬Due cfg c.now f) (hips : cfg.newIps = .ok ips) :
    Compares cfg c f (made cfg c ips) (newCert cfg c ips) cfg.regeneratedText := by
  have hmode : generationMode cfg c.now f = .renewed := by
    rcases generationMode_cases cfg c.now f with ⟨-, h⟩ | ⟨-, h⟩ | ⟨hmode, -⟩
    · exact absurd h hreuse
    · exact absurd h hdue
    · exact hmode
  have hgenerate : generateCert cfg c f [] = (.ok .renewed, made cfg c ips) := by
    rw [generateCert_made (by simp [hmode]) hips, hmode]
  refine ⟨rfl, rfl, ⟨.renewed, hgenerate, by simp, by simp⟩, ?_⟩
  unfold ensureCertificate
  rw [Logged.bind_ok hgenerate]
  have hcert : ((made cfg c ips).foldl TlsFiles.apply f).cert = .holds (newCert cfg c ips) := rfl
  exact verifyRenewed_eq hcert

theorem exists_compares (hdue : ¬Due cfg c.now f)
    (hmake : Reusable cfg c.now f ∨ ∃ ips, cfg.newIps = .ok ips) :
    ∃ log cert why, Compares cfg c f log cert why := by
  by_cases hreuse : Reusable cfg c.now f
  · obtain ⟨cert, hcert, -⟩ := id hreuse
    exact ⟨_, cert, _, compares_reused hreuse hcert⟩
  · obtain ⟨ips, hips⟩ := hmake.resolve_left hreuse
    exact ⟨_, _, _, compares_renewed hreuse hdue hips⟩

/-- A call that has no certificate stops before it writes. -/
theorem ensureCertificate_refused {e : TlsError} (h : ¬Reusable cfg c.now f)
    (hips : cfg.newIps = .error e) :
    generateCert cfg c f [] = (.error e, []) ∧ ensureCertificate cfg c f [] = (.error e, []) := by
  have hmode : generationMode cfg c.now f ≠ .reused := by
    rcases generationMode_cases cfg c.now f with ⟨-, hreuse⟩ | ⟨hmode, -⟩ | ⟨hmode, -⟩
    · exact absurd hreuse h
    · simp [hmode]
    · simp [hmode]
  have hgenerate := generateCert_refused hmode hips
  exact ⟨hgenerate, Logged.bind_error hgenerate⟩

theorem generateCert_due {ips : List String} (h : Due cfg c.now f) (hips : cfg.newIps = .ok ips) :
    generateCert cfg c f [] = (.ok .rotated, made cfg c ips) := by
  have hmode : generationMode cfg c.now f = .rotated := by
    rcases generationMode_cases cfg c.now f with ⟨-, hreuse⟩ | ⟨hmode, -⟩ | ⟨-, -, hnot⟩
    · exact absurd h hreuse.not_due
    · exact hmode
    · exact absurd h hnot
  rw [generateCert_made (by simp [hmode]) hips, hmode]

end Perpetua.Tls

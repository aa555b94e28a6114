import Mathlib.Data.Int.Order.Basic
import Perpetua.Tls.PinTheorems

/-!
# Calls that are cut off

A call replaces the certificate and then its pin. The next call makes up for a crash anywhere but
between the two, where it finds a pin that no certificate has.
-/

namespace Perpetua.Tls

variable {κ : Type} [CertLib κ] {cfg : TlsConfig} {c : TlsCall κ} {f start : TlsFiles κ}

/-! ## One call -/

/-- The call returns, with a key that is the certificate's and a pin that is its fingerprint. -/
def Recovers (cfg : TlsConfig) (c : TlsCall κ) (f : TlsFiles κ) : Prop :=
  ∃ cert, cfg.result c f = .ok (fingerprint cert) ∧ (cfg.after c f).cert = .holds cert ∧
    (cfg.after c f).key = .holds cert.publicKey ∧ Pinned (cfg.after c f).pin (fingerprint cert)

/-- What the calls of one configuration leave, up to `now`: a pin that can be read is the
certificate's, and the key too, unless the certificate is to be replaced anyhow. -/
structure Orderly (cfg : TlsConfig) (now : ℤ) (f : TlsFiles κ) : Prop where
  pin : f.pin = .missing ∨ f.pin = .notJson ∨ ∃ cert pinnedAt, f.cert = .holds cert ∧
    f.pin = .json (fingerprintPayload (fingerprint cert) pinnedAt)
  pair : ∀ cert, f.cert = .holds cert →
    f.key = .holds cert.publicKey ∨ f.key ≠ .missing ∧ Outdated cfg now cert

/-- The call replaces a certificate over its pin, and is cut off with the certificate file opened
and the pin file not yet. -/
def CutOff (cfg : TlsConfig) (f : TlsFiles κ) (run : TlsCall κ × ℕ) : Prop :=
  Due cfg run.1.now f ∧ (∃ fp, Pinned f.pin fp) ∧ (run.2 = 3 ∨ run.2 = 4)

theorem Outdated.mono {now later : ℤ} {cert : Certificate κ} (h : Outdated cfg now cert)
    (hle : now ≤ later) : Outdated cfg later cert := by
  rcases h with hdays | hmiss
  · left
    have hless : cert.notAfter - later ≤ cert.notAfter - now := by omega
    exact Int.le_trans (Int.ediv_le_ediv (by decide) hless) hdays
  · exact .inr hmiss

theorem Orderly.mono {now later : ℤ} (h : Orderly cfg now f) (hle : now ≤ later) :
    Orderly cfg later f :=
  ⟨h.pin, fun cert hcert => (h.pair cert hcert).imp_right fun ⟨hkey, hold⟩ => ⟨hkey, hold.mono hle⟩⟩

/-- The writes of a pin. -/
def pinWrites (c : TlsCall κ) (cert : Certificate κ) : List (TlsWrite κ) :=
  [.pinOpened, .pin (fingerprintPayload (fingerprint cert) c.pinnedAt)]

theorem Orderly.reused {cert : Certificate κ} (h : Orderly cfg c.now f)
    (hreuse : Reusable cfg c.now f) (hcert : f.cert = .holds cert) :
    f.key = .holds cert.publicKey := by
  obtain ⟨cert', hcert', hkey, hdays, hcovers⟩ := id hreuse
  obtain rfl := Slot.holds.inj (hcert.symm.trans hcert')
  rcases h.pair cert hcert with hpair | ⟨-, hold⟩
  · exact hpair
  · exact absurd ⟨cert, hcert, hkey, hold⟩ hreuse.not_due

theorem repin_eq {log : List (TlsWrite κ)} {cert : Certificate κ} {pinned : Option Json.Value}
    (hcert : (log.foldl TlsFiles.apply start).cert = .holds cert)
    (hload : loadPinned (log.foldl TlsFiles.apply start) = .ok pinned)
    (hslice : ∀ value ∈ pinned, sliceable value = true) :
    repin c start log = (.ok (fingerprint cert), log ++ pinWrites c cert) := by
  unfold repin
  rw [Logged.bind_ok (tlsFiles_run start log), certFingerprint_holds hcert, Logged.lift_ok_bind,
    hload, Logged.lift_ok_bind]
  have hwarn : (pinned.any fun value => differs value (fingerprint cert) && !sliceable value) =
      false := by
    cases pinned with
    | none => rfl
    | some value => simp [hslice value rfl]
  rw [hwarn]
  exact Logged.bind_ok (storePinned_run _ log)

/-- With names and addresses that can be had, a certificate with a key file is kept or replaced. -/
theorem reusable_or_due {now : ℤ} {ips : List String} {cert : Certificate κ}
    (hips : cfg.newIps = .ok ips) (hcert : f.cert = .holds cert) (hkey : f.key ≠ .missing) :
    Reusable cfg now f ∨ Due cfg now f := by
  have hcovers : ∃ covered, cfg.covers cert = .ok covered := by
    unfold TlsConfig.covers
    rw [TlsConfig.sanIps_of_newIps hips]
    cases cert.sans with
    | none => exact ⟨false, rfl⟩
    | some sans => exact ⟨_, rfl⟩
  by_cases hdays : cert.remainingDays now ≤ 7
  · exact .inr ⟨cert, hcert, hkey, .inl hdays⟩
  · obtain ⟨covered, hcovers⟩ := hcovers
    by_cases hmiss : cfg.reissueOnSanChange = true ∧ covered = false
    · exact .inr ⟨cert, hcert, hkey, .inr ⟨hmiss.1, by rw [hcovers, hmiss.2]⟩⟩
    · refine .inl ⟨cert, hcert, hkey, by omega, fun hreissue => ?_⟩
      cases covered with
      | true => exact hcovers
      | false => exact absurd ⟨hreissue, rfl⟩ hmiss

/-- The writes of a call on orderly files. -/
inductive Writes (cfg : TlsConfig) (c : TlsCall κ) (f : TlsFiles κ) (ips : List String) :
    List (TlsWrite κ) → Certificate κ → Prop
  /-- The certificate and its pin are there. -/
  | keep {cert : Certificate κ} (hcert : f.cert = .holds cert) (hkey : f.key = .holds cert.publicKey)
      (hpin : Pinned f.pin (fingerprint cert)) : Writes cfg c f ips [] cert
  | pin {cert : Certificate κ} (hcert : f.cert = .holds cert) (hkey : f.key = .holds cert.publicKey) :
      Writes cfg c f ips (pinWrites c cert) cert
  | make (hstep : Due cfg c.now f ∨
        (∀ cert, f.cert ≠ .holds cert) ∧ (f.pin = .missing ∨ f.pin = .notJson)) :
      Writes cfg c f ips (made cfg c ips ++ pinWrites c (newCert cfg c ips)) (newCert cfg c ips)

theorem Orderly.writes {ips : List String} (h : Orderly cfg c.now f) (hips : cfg.newIps = .ok ips) :
    ∃ log cert, Writes cfg c f ips log cert ∧
      ensureCertificate cfg c f [] = (.ok (fingerprint cert), log) := by
  by_cases hreuse : Reusable cfg c.now f
  · obtain ⟨cert, hcert, -⟩ := id hreuse
    have hkey := h.reused hreuse hcert
    have hrun := (compares_reused hreuse hcert).run
    rcases h.pin with hpin | hpin | ⟨cert', pinnedAt, hcert', hpin⟩
    · refine ⟨_, cert, .pin hcert hkey, ?_⟩
      rw [hrun, loadPinned_unpinned (.inl hpin)]
      rfl
    · refine ⟨_, cert, .pin hcert hkey, ?_⟩
      rw [hrun, loadPinned_unpinned (.inr hpin)]
      rfl
    · obtain rfl := Slot.holds.inj (hcert.symm.trans hcert')
      refine ⟨_, cert, .keep hcert hkey ⟨_, hpin, rfl⟩, ?_⟩
      rw [hrun, loadPinned_payload hpin, compared]
      simp [differs, Json.Value.str?]
  by_cases hdue : Due cfg c.now f
  · refine ⟨_, _, .make (.inl hdue), ?_⟩
    have hload : ∃ pinned, loadPinned f = .ok pinned ∧ ∀ value ∈ pinned, sliceable value = true := by
      rcases h.pin with hpin | hpin | ⟨cert', pinnedAt, -, hpin⟩
      · exact ⟨none, loadPinned_unpinned (.inl hpin), by simp⟩
      · exact ⟨none, loadPinned_unpinned (.inr hpin), by simp⟩
      · refine ⟨_, loadPinned_payload hpin, fun value hvalue => ?_⟩
        cases hvalue
        rfl
    obtain ⟨pinned, hload, hslice⟩ := hload
    unfold ensureCertificate
    rw [Logged.bind_ok (generateCert_due hdue hips)]
    have hcert : ((made cfg c ips).foldl TlsFiles.apply f).cert = .holds (newCert cfg c ips) := rfl
    exact repin_eq hcert hload hslice
  · have habsent : ∀ cert, f.cert ≠ .holds cert := by
      intro cert hcert
      have hkey : f.key ≠ .missing := by
        rcases h.pair cert hcert with hkey | ⟨hkey, -⟩
        · rw [hkey]
          simp
        · exact hkey
      have hcases : Reusable cfg c.now f ∨ Due cfg c.now f := reusable_or_due hips hcert hkey
      rcases hcases with hthis | hthis
      · exact hreuse hthis
      · exact hdue hthis
    have hunpinned : f.pin = .missing ∨ f.pin = .notJson := by
      rcases h.pin with hpin | hpin | ⟨cert, -, hcert, -⟩
      · exact .inl hpin
      · exact .inr hpin
      · exact absurd hcert (habsent cert)
    refine ⟨_, _, .make (.inr ⟨habsent, hunpinned⟩), ?_⟩
    rw [(compares_renewed hreuse hdue hips).run, loadPinned_unpinned hunpinned]
    rfl

theorem Orderly.recovers {ips : List String} (h : Orderly cfg c.now f) (hips : cfg.newIps = .ok ips) :
    Recovers cfg c f := by
  obtain ⟨log, cert, hwrites, hrun⟩ := h.writes hips
  refine ⟨cert, by rw [TlsConfig.result, hrun], ?_⟩
  rw [TlsConfig.after, TlsConfig.writes, hrun]
  cases hwrites with
  | keep hcert hkey hpin => exact ⟨hcert, hkey, hpin⟩
  | pin hcert hkey => exact ⟨hcert, hkey, _, rfl, rfl⟩
  | make => exact ⟨rfl, rfl, _, rfl, rfl⟩

theorem Orderly.afterCut {ips : List String} (h : Orderly cfg c.now f) (hips : cfg.newIps = .ok ips)
    {n : ℕ} (hcut : ¬CutOff cfg f (c, n)) : Orderly cfg c.now (cfg.afterCut f (c, n)) := by
  obtain ⟨log, cert, hwrites, hrun⟩ := h.writes hips
  rw [TlsConfig.afterCut, TlsConfig.writes, hrun]
  cases hwrites with
  | keep => rwa [List.take_nil]
  | pin hcert hkey =>
      have hpair : ∀ cert', f.cert = .holds cert' →
          f.key = .holds cert'.publicKey ∨ f.key ≠ .missing ∧ Outdated cfg c.now cert' := by
        intro cert' hcert'
        obtain rfl := Slot.holds.inj (hcert.symm.trans hcert')
        exact .inl hkey
      rcases n with _ | _ | n
      · exact h
      · exact ⟨.inr (.inl rfl), hpair⟩
      · simp only [pinWrites, List.take_succ_cons, List.take_nil]
        exact ⟨.inr (.inr ⟨cert, c.pinnedAt, hcert, rfl⟩), hpair⟩
  | make hstep =>
      -- an old certificate with a key that is not its own is replaced by the next call
      have hold : ∀ (key : Slot κ) (cert : Certificate κ), key ≠ .missing → f.cert = .holds cert →
          key = .holds cert.publicKey ∨ key ≠ .missing ∧ Outdated cfg c.now cert := by
        intro key cert hkey hcert
        rcases hstep with ⟨cert', hcert', -, hdue⟩ | ⟨habsent, -⟩
        · obtain rfl := Slot.holds.inj (hcert.symm.trans hcert')
          exact .inr ⟨hkey, hdue⟩
        · exact absurd hcert (habsent cert)
      have hunpinned (hn : n = 3 ∨ n = 4) : f.pin = .missing ∨ f.pin = .notJson := by
        rcases hstep with hdue | ⟨-, hunpinned⟩
        · rcases h.pin with hpin | hpin | ⟨cert, pinnedAt, -, hpin⟩
          · exact .inl hpin
          · exact .inr hpin
          · exact absurd ⟨hdue, ⟨_, _, hpin, rfl⟩, hn⟩ hcut
        · exact hunpinned
      rcases n with _ | _ | _ | _ | _ | _ | n
      · exact h
      · exact ⟨h.pin, fun cert hcert => hold _ cert (by intro hkey; cases hkey) hcert⟩
      · exact ⟨h.pin, fun cert hcert => hold _ cert (by intro hkey; cases hkey) hcert⟩
      · refine ⟨(hunpinned (.inl rfl)).imp_right .inl, fun cert hcert => ?_⟩
        cases hcert
      · refine ⟨(hunpinned (.inr rfl)).imp_right .inl, fun cert hcert => ?_⟩
        cases hcert
        exact .inl rfl
      · refine ⟨.inr (.inl rfl), fun cert hcert => ?_⟩
        cases hcert
        exact .inl rfl
      · simp only [made, pinWrites, List.cons_append, List.nil_append, List.take_succ_cons,
          List.take_nil]
        refine ⟨.inr (.inr ⟨_, _, rfl, rfl⟩), fun cert hcert => ?_⟩
        cases hcert
        exact .inl rfl

/-! ## Runs -/

theorem Orderly.run {ips : List String} {now : ℤ} (h : Orderly cfg now f) (hips : cfg.newIps = .ok ips)
    {runs : List (TlsCall κ × ℕ)}
    (hclock : List.IsChain (· ≤ ·) (now :: (runs.map (·.1.now) ++ [c.now])))
    (hcut : Machine.Along cfg.afterCut (fun f run => ¬CutOff cfg f run) f runs) :
    Recovers cfg c (Machine.run cfg.afterCut f runs) := by
  induction runs generalizing now f with
  | nil => exact (h.mono (List.isChain_cons_cons.mp hclock).1).recovers hips
  | cons run runs ih =>
      obtain ⟨hle, hclock⟩ := List.isChain_cons_cons.mp hclock
      exact ih ((h.mono hle).afterCut hips hcut.1) hclock hcut.2

/-- The runs of one configuration, each cut off anywhere but between a certificate that replaces a
pinned one and its pin, leave files from which the next call recovers. -/
theorem recovers_run {ips : List String} (hips : cfg.newIps = .ok ips) {runs : List (TlsCall κ × ℕ)}
    (hclock : List.IsChain (· ≤ ·) (runs.map (·.1.now) ++ [c.now]))
    (hcut : Machine.Along cfg.afterCut (fun f run => ¬CutOff cfg f run) {} runs) :
    Recovers cfg c (Machine.run cfg.afterCut {} runs) := by
  have hstart (now : ℤ) : Orderly cfg now ({} : TlsFiles κ) := by
    refine ⟨.inl rfl, fun cert hcert => ?_⟩
    cases hcert
  cases runs with
  | nil => exact (hstart c.now).recovers hips
  | cons run runs =>
      exact (hstart run.1.now).run hips (List.isChain_cons_cons.mpr ⟨Int.le_refl _, hclock⟩) hcut

section Samples

attribute [local instance] serialCerts

/-- A rotation that is cut off behind the new key. -/
theorem recovers_keyWritten :
    Recovers {} (sampleCall 31104000000001 3) (Machine.run (TlsConfig.afterCut {})
      ({} : TlsFiles ℕ) [(sampleCall 0 1, 6), (sampleCall 31104000000000 2, 2)]) := by
  have hips : TlsConfig.newIps {} = .ok ["127.0.0.1"] := rfl
  refine recovers_run hips (by decide) ⟨?_, ?_, trivial⟩
  · rintro ⟨-, -, hcut⟩
    revert hcut
    decide
  · rintro ⟨-, -, hcut⟩
    revert hcut
    decide

/-- A rotation that is cut off behind the new certificate. -/
theorem not_recovers_certWritten :
    ¬Recovers {} (sampleCall 31104000000001 3) (Machine.run (TlsConfig.afterCut {})
      ({} : TlsFiles ℕ) [(sampleCall 0 1, 6), (sampleCall 31104000000000 2, 4)]) := by
  rintro ⟨cert, hresult, -⟩
  have hnone : (TlsConfig.result {} (sampleCall 31104000000001 3) (Machine.run (TlsConfig.afterCut {})
      ({} : TlsFiles ℕ) [(sampleCall 0 1, 6), (sampleCall 31104000000000 2, 4)])).toOption = none := by
    decide +kernel
  rw [hresult] at hnone
  cases hnone

end Samples

end Perpetua.Tls

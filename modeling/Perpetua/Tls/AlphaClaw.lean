import Perpetua.Lib.Logged
import Perpetua.Tls.Certificates

/-!
# The self-signed certificate of the AlphaClaw proxy

The model of `AlphaClawTlsProxy.ensure_certificate` in `orchestrator/alphaclaw_tls_proxy.py` without
a `pki`. A file is opened, which empties it, and then written; a run that is cut off leaves the one
or the other.
-/

namespace Perpetua.Tls

variable {κ : Type}

/-! ## Files -/

/-- A key or certificate file: `unreadable` is one that cannot be read or parsed. -/
inductive Slot (α : Type)
  | missing
  | unreadable
  | holds (a : α)
  deriving DecidableEq

/-- The file of the pinned fingerprint, as a reader finds it. -/
inductive StoredPin
  | missing
  /-- Reading it is an `OSError`. -/
  | unreadable
  /-- Reading it is another error than those that the loader expects. -/
  | undecodable
  /-- `json.JSONDecodeError`. -/
  | notJson
  | json (value : Json.Value)

structure TlsFiles (κ : Type) where
  key : Slot κ := .missing
  cert : Slot (Certificate κ) := .missing
  pin : StoredPin := .missing

inductive TlsWrite (κ : Type)
  | keyOpened
  | key (key : κ)
  | certOpened
  | cert (cert : Certificate κ)
  | pinOpened
  | pin (value : Json.Value)

def TlsFiles.apply (f : TlsFiles κ) : TlsWrite κ → TlsFiles κ
  | .keyOpened => { f with key := .unreadable }
  | .key key => { f with key := .holds key }
  | .certOpened => { f with cert := .unreadable }
  | .cert cert => { f with cert := .holds cert }
  | .pinOpened => { f with pin := .notJson }
  | .pin value => { f with pin := .json value }

inductive TlsError
  /-- `AlphaClawCertFingerprintMismatch`: the label, the fingerprints that it shows the start of, and
  what the message says behind them. -/
  | fingerprintMismatch (label : String) (pinned : Json.Value) (current why : String)
  | osError
  | valueError
  | attributeError
  | typeError

structure TlsConfig where
  label : String := "AlphaClaw"
  /-- The path of the pin file, as messages show it. -/
  pinPath : String := "fingerprint.json"
  commonName : String := "localhost"
  sanDns : List String := ["localhost"]
  /-- `_want_ips` in canonical text; `ipaddress` may refuse one. -/
  sanIps : Except TlsError (List String) := .ok ["127.0.0.1"]
  /-- What `x509` makes of the names: it may refuse a DNS name that is not ASCII, or a common name that
  is empty or has more than 64 characters. -/
  builds : Except TlsError Unit := .ok ()
  reissueOnSanChange : Bool := false

def TlsConfig.changedText (cfg : TlsConfig) : String :=
  "This may mean the cert was legitimately rotated (e.g. after CERT_DIR was cleared) " ++
    "or may indicate a MITM attack. Verify out-of-band, then delete " ++ cfg.pinPath ++
    " to accept the new certificate explicitly -- this is never done automatically."

def TlsConfig.regeneratedText (cfg : TlsConfig) : String :=
  "Certificate files were missing or unreadable and were regenerated. " ++
    "Verify out-of-band, then delete " ++ cfg.pinPath ++
    " to accept the new certificate explicitly -- this is never done automatically."

/-- One call of `ensure_certificate`. -/
structure TlsCall (κ : Type) where
  now : ℤ
  newKey : κ
  serial : ℕ
  pinnedAt : String

abbrev TlsM (κ : Type) := Logged TlsError (TlsWrite κ)

def tlsFiles (start : TlsFiles κ) : TlsM κ (TlsFiles κ) :=
  Logged.ask fun writes => writes.foldl TlsFiles.apply start

/-! ## The pin -/

/-- `_load_pinned_fingerprint`: any value but `null` under `fingerprint`. -/
def loadPinned (f : TlsFiles κ) : Except TlsError (Option Json.Value) :=
  match f.pin with
  | .missing | .unreadable | .notJson => .ok none
  | .undecodable => .error .valueError
  | .json (.obj fields) =>
      match Entries.get? fields "fingerprint" with
      | none | some .null => .ok none
      | some pinned => .ok (some pinned)
  | .json _ => .error .attributeError

/-- `[:16]` of a pinned value is defined. -/
def sliceable : Json.Value → Bool
  | .str _ | .arr _ => true
  | _ => false

/-- `pinned != current`. -/
def differs (pinned : Json.Value) (current : String) : Bool := pinned.str? ≠ some current

/-- What `_store_pinned_fingerprint` writes. -/
def fingerprintPayload (fp pinnedAt : String) : Json.Value :=
  .obj [("fingerprint", .str fp), ("pinned_at", .str pinnedAt)]

/-- `_store_pinned_fingerprint`. -/
def storePinned (c : TlsCall κ) (fp : String) : TlsM κ Unit := do
  Logged.emit .pinOpened
  Logged.emit (.pin (fingerprintPayload fp c.pinnedAt))

/-- The mismatch error, or the one of the slice in its message. -/
def mismatchError (cfg : TlsConfig) (pinned : Json.Value) (current why : String) : TlsError :=
  if sliceable pinned then .fingerprintMismatch cfg.label pinned current why else .typeError

/-- `_cert_fingerprint`. -/
def certFingerprint [CertLib κ] (f : TlsFiles κ) : Except TlsError String :=
  match f.cert with
  | .missing => .error .osError
  | .unreadable => .error .valueError
  | .holds cert => .ok (fingerprint cert)

/-- `verify_or_pin_fingerprint`. -/
def verifyOrPin [CertLib κ] (cfg : TlsConfig) (c : TlsCall κ) (start : TlsFiles κ) :
    TlsM κ String := do
  let f ← tlsFiles start
  let current ← Logged.lift (certFingerprint f)
  let pinned ← Logged.lift (loadPinned f)
  match pinned with
  | none => do
      storePinned c current
      return current
  | some pinned =>
      if differs pinned current then
        Logged.raise (mismatchError cfg pinned current cfg.changedText)
      else return current

/-! ## The certificate -/

inductive Mode
  | reused
  | rotated
  | sanReissued
  | renewed
  deriving DecidableEq

/-- `_existing_cert_covers_sans`. -/
def TlsConfig.covers [CertLib κ] (cfg : TlsConfig) (existing : Certificate κ) :
    Except TlsError Bool :=
  match existing.sans with
  | none => .ok false
  | some _ => cfg.sanIps.map fun ips => existing.coversDns cfg.sanDns && existing.coversIps ips

/-- The generation mode of `_generate_cert`: a certificate that misses a name is marked
`san_reissued`, and then `rotated` like one that is about to expire. -/
def generationMode [CertLib κ] (cfg : TlsConfig) (now : ℤ) (f : TlsFiles κ) : Mode :=
  match f.cert, f.key with
  | .missing, _ | _, .missing | .unreadable, _ => .renewed
  | .holds existing, _ =>
      if existing.remainingDays now > 7 then
        if cfg.reissueOnSanChange then
          match cfg.covers existing with
          | .error _ => .renewed
          | .ok covered => if covered then .reused else .rotated
        else .reused
      else .rotated

/-- The certificate that `_generate_cert` makes. -/
def newCert (cfg : TlsConfig) (c : TlsCall κ) (ips : List String) : Certificate κ where
  subject := cfg.commonName
  issuer := cfg.commonName
  publicKey := c.newKey
  signedBy := c.newKey
  serial := c.serial
  notAfter := wholeSeconds (c.now + days 365)
  sans := some ⟨cfg.sanDns, ips⟩

/-- The addresses of a new certificate, whose names are built first. -/
def TlsConfig.newIps (cfg : TlsConfig) : Except TlsError (List String) :=
  cfg.builds.bind fun _ => cfg.sanIps

/-- Write a new key and its certificate. -/
def writeCert (cfg : TlsConfig) (c : TlsCall κ) : TlsM κ Unit := do
  let ips ← Logged.lift cfg.newIps
  Logged.emit .keyOpened
  Logged.emit (.key c.newKey)
  Logged.emit .certOpened
  Logged.emit (.cert (newCert cfg c ips))

/-- `_generate_cert`. -/
def generateCert [CertLib κ] (cfg : TlsConfig) (c : TlsCall κ) (start : TlsFiles κ) :
    TlsM κ Mode := do
  let f ← tlsFiles start
  match generationMode cfg c.now f with
  | .reused => return .reused
  | mode => do
      writeCert cfg c
      return mode

/-! ## ensure_certificate -/

/-- The pin follows a certificate that was made on purpose. -/
def repin [CertLib κ] (c : TlsCall κ) (start : TlsFiles κ) : TlsM κ String := do
  let f ← tlsFiles start
  let current ← Logged.lift (certFingerprint f)
  let pinned ← Logged.lift (loadPinned f)
  -- the warning shows the start of the pinned value
  if pinned.any fun pinned => differs pinned current && !sliceable pinned then
    Logged.raise .typeError
  else do
    storePinned c current
    return current

/-- A certificate that had to be made anew is compared with a pin. -/
def verifyRenewed [CertLib κ] (cfg : TlsConfig) (c : TlsCall κ) (start : TlsFiles κ) :
    TlsM κ String := do
  let f ← tlsFiles start
  let pinned ← Logged.lift (loadPinned f)
  match pinned with
  | none => verifyOrPin cfg c start
  | some pinned => do
      let current ← Logged.lift (certFingerprint f)
      if differs pinned current then
        Logged.raise (mismatchError cfg pinned current cfg.regeneratedText)
      else return current

/-- `ensure_certificate`, with the `fingerprint` that it sets. -/
def ensureCertificate [CertLib κ] (cfg : TlsConfig) (c : TlsCall κ) (start : TlsFiles κ) :
    TlsM κ String := do
  let mode ← generateCert cfg c start
  match mode with
  | .rotated | .sanReissued => repin c start
  | .renewed => verifyRenewed cfg c start
  | .reused => verifyOrPin cfg c start

/-- The result of a call, its writes and the files after it. -/
def TlsConfig.result [CertLib κ] (cfg : TlsConfig) (c : TlsCall κ) (f : TlsFiles κ) :
    Except TlsError String := (ensureCertificate cfg c f []).1

def TlsConfig.writes [CertLib κ] (cfg : TlsConfig) (c : TlsCall κ) (f : TlsFiles κ) :
    List (TlsWrite κ) := (ensureCertificate cfg c f []).2

def TlsConfig.after [CertLib κ] (cfg : TlsConfig) (c : TlsCall κ) (f : TlsFiles κ) : TlsFiles κ :=
  (cfg.writes c f).foldl TlsFiles.apply f

/-- The files after a call that dies behind its first `writes` writes. -/
def TlsConfig.afterCut [CertLib κ] (cfg : TlsConfig) (f : TlsFiles κ) (run : TlsCall κ × ℕ) :
    TlsFiles κ :=
  ((cfg.writes run.1 f).take run.2).foldl TlsFiles.apply f

end Perpetua.Tls

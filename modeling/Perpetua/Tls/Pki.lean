import Perpetua.Lib.Logged
import Perpetua.Tls.Certificates

/-!
# The LAN control plane PKI

The model of `LanControlPlanePki.ensure` in `orchestrator/lan_control_plane_pki.py`, as a computation
that logs its writes. Each write is atomic. What else a run depends on (its configuration, the clock,
the keys that are generated, the reads that fail) is its `PkiRun`.
-/

namespace Perpetua.Tls

variable {κ : Type}

/-! ## Files -/

structure PkiStore (κ : Type) where
  caKey : Option κ := none
  caCert : Option (Certificate κ) := none
  pin : PinFile := .missing
  leafKey : Option κ := none
  leafChain : Option (List (Certificate κ)) := none
  /-- The public CA files, under their names. -/
  publicCa : String → Option (Certificate κ) := fun _ => none
  sums : Option String := none

inductive PkiWrite (κ : Type)
  | caKey (key : κ)
  | caCert (cert : Certificate κ)
  | pin (value : Json.Value)
  | leafKey (key : κ)
  | leafChain (chain : List (Certificate κ))
  | publicCa (name : String) (cert : Certificate κ)
  | sums (text : String)

def PkiStore.apply (f : PkiStore κ) : PkiWrite κ → PkiStore κ
  | .caKey key => { f with caKey := some key }
  | .caCert cert => { f with caCert := some cert }
  | .pin value => { f with pin := .json value }
  | .leafKey key => { f with leafKey := some key }
  | .leafChain chain => { f with leafChain := some chain }
  | .publicCa name cert =>
      { f with publicCa := fun n => if n = name then some cert else f.publicCa n }
  | .sums text => { f with sums := some text }

inductive PkiError
  /-- `AlphaClawCertFingerprintMismatch`. -/
  | fingerprintMismatch (message : String)
  /-- `AlphaClawTlsUnavailable`. -/
  | unavailable (message : String)
  | osError
  | valueError
  | typeError
  deriving DecidableEq

/-- One run of `ensure`. -/
structure PkiRun (κ : Type) where
  hostname : String := ""
  /-- `socket.gethostname()`. -/
  localName : String := ""
  sanDns : List String := ["localhost"]
  /-- The configured or current addresses; `ipaddress` may refuse one. -/
  sanIps : Except PkiError (List String) := .ok []
  label : String := "Portal"
  now : ℤ
  pinnedAt : String
  caKey : κ
  leafKey : κ
  caSerial : ℕ
  leafSerial : ℕ
  /-- The library has `verify_directly_issued_by`. -/
  verifies : Bool := true
  /-- The files whose reading does not fail. -/
  readsCa : Bool := true
  readsPin : Bool := true
  readsLeaf : Bool := true
  readsChain : Bool := true
  readsPublic : Bool := true

def PkiRun.host (r : PkiRun κ) : String := if r.hostname = "" then r.localName else r.hostname

/-- `_safe_host`. -/
def safeHost (name : String) : String :=
  let cleaned := name.toList.map fun c =>
    if c.isAlphanum || ['.', '_', '-'].contains c then c else '-'
  let ends := fun c => ['.', '-'].contains c
  let stripped := ((cleaned.dropWhile ends).reverse.dropWhile ends).reverse
  if stripped = [] then "node" else .ofList stripped

/-- The name of `ca_public_path`. -/
def PkiRun.publicName (r : PkiRun κ) : String := "orama-lan-ca-" ++ safeHost r.host ++ ".pem"

def loopback : String := "127.0.0.1"

/-- `_want_ips`. -/
def PkiRun.wantIps (r : PkiRun κ) : Except PkiError (List String) :=
  r.sanIps.map (· ++ [loopback])

/-- `_want_dns`. -/
def PkiRun.wantDns (r : PkiRun κ) : List String :=
  (("localhost" :: r.sanDns).filter (· ≠ "")).reverse.dedup.reverse

/-- `_mismatch`. -/
def PkiRun.mismatch (r : PkiRun κ) (pinned current why : String) : PkiError :=
  .fingerprintMismatch (r.label ++ " CA fingerprint check failed (" ++ why ++ "): pinned=" ++
    shortened pinned ++ "... current=" ++ (if current = "" then "none" else shortened current) ++
    "... A CA change is an explicit two-sided migration. Verify out of band, then remove the " ++
    "private/ca-pin.json file and the CA files under the state directory to start a new CA; " ++
    "peers must then be given the new public CA and its SHA-256.")

abbrev PkiM (κ : Type) := Logged PkiError (PkiWrite κ)

/-- The files as they are now. -/
def files (start : PkiStore κ) : PkiM κ (PkiStore κ) :=
  Logged.ask fun writes => writes.foldl PkiStore.apply start

/-! ## The CA -/

/-- `_HEX64`; `$` lets a line feed follow. -/
def isHex64 (s : String) : Bool :=
  let digits := if s.toList.getLast? = some '\n' then s.toList.dropLast else s.toList
  digits.length = 64 && digits.all fun c => c.isDigit || ('a' ≤ c && c ≤ 'f')

/-- `_load_pin`. -/
def PkiRun.loadPin (r : PkiRun κ) (f : PkiStore κ) : Except PkiError (Option String) :=
  if !r.readsPin then .error (r.mismatch "" "" "pin file unreadable")
  else
    match f.pin with
    | .missing => .ok none
    | .notJson => .error (r.mismatch "" "" "pin file is not valid JSON")
    | .json (.obj fields) =>
        match Entries.get? fields "ca_fingerprint" with
        | some (.str fp) =>
            if isHex64 fp then .ok (some fp)
            else .error (r.mismatch "" "" "pin file does not hold a SHA-256 fingerprint")
        | _ => .error (r.mismatch "" "" "pin file does not hold a SHA-256 fingerprint")
    | .json _ => .error (r.mismatch "" "" "pin file does not hold a SHA-256 fingerprint")

/-- What `_store_pin` writes. -/
def pinPayload (fp pinnedAt : String) : Json.Value :=
  .obj [("ca_fingerprint", .str fp), ("pinned_at", .str pinnedAt)]

/-- `_new_ca`. -/
def PkiRun.newCa (r : PkiRun κ) : Certificate κ :=
  let name := String.ofList (("Orama LAN Control Plane CA (" ++ r.host ++ ")").toList.take 64)
  { subject := name, issuer := name, publicKey := r.caKey, signedBy := r.caKey
    serial := r.caSerial, notAfter := wholeSeconds (r.now + days 730), sans := none }

section

variable [DecidableEq κ] [CertLib κ]

/-- `_load_ca`. -/
def PkiRun.loadCa (r : PkiRun κ) (f : PkiStore κ) : Option (Certificate κ × κ) :=
  if !r.readsCa then none
  else
    match f.caCert, f.caKey with
    | some cert, some key => if cert.publicKey ≠ key then none else some (cert, key)
    | _, _ => none

/-- The part of `_ensure_ca` that loads or creates the CA. -/
def loadOrCreateCa (r : PkiRun κ) (f : PkiStore κ) (pinned : Option String) :
    PkiM κ (Certificate κ × κ) :=
  match r.loadCa f, pinned with
  | some pair, _ => return pair
  | none, some fp => Logged.raise (r.mismatch fp "" "CA files missing or unreadable")
  | none, none => do
      Logged.emit (.caKey r.caKey)
      Logged.emit (.caCert r.newCa)
      return (r.newCa, r.caKey)

/-- Store the pin of a CA that is new, and compare any other one. -/
def pinCa (r : PkiRun κ) (pinned : Option String) (current : String) : PkiM κ Unit :=
  match pinned with
  | none => Logged.emit (.pin (pinPayload current r.pinnedAt))
  | some fp =>
      if fp ≠ current then
        Logged.raise (r.mismatch fp current "CA certificate differs from the pin")
      else return ()

/-- `_ensure_ca`. -/
def ensureCa (r : PkiRun κ) (start : PkiStore κ) : PkiM κ (Certificate κ × κ) := do
  let f ← files start
  let pinned ← Logged.lift (r.loadPin f)
  let ca ← loadOrCreateCa r f pinned
  pinCa r pinned (fingerprint ca.1)
  if ca.1.notAfter - r.now ≤ 0 then
    Logged.raise (.unavailable
      "the local CA has expired; renewing a CA is an explicit two-sided migration")
  else return ca

/-! ## The leaf -/

/-- Whether the leaf counts as issued by the CA: its signature is only looked at by a library that
can. -/
def PkiRun.issuedBy (r : PkiRun κ) (leaf ca : Certificate κ) : Bool :=
  leaf.issuer = ca.subject && (!r.verifies || leaf.signedBy = ca.publicKey)

/-- `_leaf_problem`. -/
def PkiRun.leafProblem (r : PkiRun κ) (f : PkiStore κ) (ca : Certificate κ) :
    Except PkiError String :=
  if !r.readsLeaf then .ok "missing"
  else
    match f.leafChain, f.leafKey with
    | some (leaf :: _), some key =>
        if leaf.publicKey ≠ key then .ok "missing"
        else if !r.issuedBy leaf ca then .ok "reissued"
        else if leaf.remainingDays r.now < 7 then .ok "rotated"
        else if !leaf.coversDns r.wantDns then .ok "san_reissued"
        else r.wantIps.map fun ips => if leaf.coversIps ips then "" else "san_reissued"
    | _, _ => .ok "missing"

/-- The leaf that `_issue_leaf` signs. -/
def PkiRun.newLeaf (r : PkiRun κ) (ca : Certificate κ) (caKey : κ) (ips : List String) :
    Certificate κ :=
  let name :=
    if r.sanDns.headD "" ≠ "" then r.sanDns.headD ""
    else if r.hostname ≠ "" then r.hostname
    else "localhost"
  { subject := .ofList (name.toList.take 64), issuer := ca.subject, publicKey := r.leafKey
    signedBy := caKey, serial := r.leafSerial, notAfter := wholeSeconds (min (r.now + days 30) ca.notAfter)
    sans := some ⟨r.wantDns, ips⟩ }

/-- `_issue_leaf`. The loopback address does not compare with an IPv6 address when they are sorted. -/
def issueLeaf (r : PkiRun κ) (ca : Certificate κ) (caKey : κ) : PkiM κ Unit := do
  let ips ← Logged.lift r.wantIps
  if ips.any fun ip => ip.toList.contains ':' then Logged.raise .typeError
  else do
    Logged.emit (.leafKey r.leafKey)
    Logged.emit (.leafChain [r.newLeaf ca caKey ips, ca])

/-! ## The public CA -/

/-- Write the public CA file when it is missing or another one. -/
def writePublicCa (r : PkiRun κ) (f : PkiStore κ) (ca : Certificate κ) : PkiM κ Unit :=
  match f.publicCa r.publicName with
  | none => Logged.emit (.publicCa r.publicName ca)
  | some old =>
      if !r.readsPublic then Logged.raise .osError
      else if old ≠ ca then Logged.emit (.publicCa r.publicName ca)
      else return ()

/-- `_publish`, with the hash that it records. -/
def publish (r : PkiRun κ) (start : PkiStore κ) (ca : Certificate κ) : PkiM κ String := do
  let f ← files start
  writePublicCa r f ca
  let f ← files start
  if !r.readsPublic then Logged.raise .osError
  else
    let digest := Sha256.hexdigest ((f.publicCa r.publicName).elim [] CertLib.pem)
    let sums := digest ++ "  " ++ r.publicName ++ "\n"
    if f.sums = some sums then return digest
    else do
      Logged.emit (.sums sums)
      return digest

/-! ## ensure -/

/-- What `ensure` fills in. -/
structure PkiReport where
  caFingerprint : String
  leafFingerprint : String
  caFileSha256 : String
  leafEvent : String

/-- Issue a leaf when there is a problem with the one on disk. -/
def renewLeaf (r : PkiRun κ) (ca : Certificate κ) (caKey : κ) (problem : String) : PkiM κ String :=
  if problem = "" then return "reused"
  else do
    issueLeaf r ca caKey
    return if problem = "missing" then "created" else problem

/-- `_ensure_locked`. -/
def ensureLocked (r : PkiRun κ) (start : PkiStore κ) : PkiM κ PkiReport := do
  let ca ← ensureCa r start
  let f ← files start
  let problem ← Logged.lift (r.leafProblem f ca.1)
  let leafEvent ← renewLeaf r ca.1 ca.2 problem
  let f ← files start
  match if r.readsChain then f.leafChain else none with
  | none | some [] => Logged.raise .osError
  | some (leaf :: _) => do
      let caFileSha256 ← publish r start ca.1
      return { caFingerprint := fingerprint ca.1, leafFingerprint := fingerprint leaf
               caFileSha256, leafEvent }

/-- A run of `ensure` and its writes. -/
def ensure (r : PkiRun κ) (start : PkiStore κ) : Except PkiError PkiReport × List (PkiWrite κ) :=
  ensureLocked r start []

/-- The files after a run that dies behind its first `writes` writes; a run that ends by itself has
no more. -/
def PkiStore.afterRun (f : PkiStore κ) (run : PkiRun κ × ℕ) : PkiStore κ :=
  ((ensure run.1 f).2.take run.2).foldl PkiStore.apply f

end

end Perpetua.Tls

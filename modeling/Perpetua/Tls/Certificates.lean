import Mathlib.Data.Int.Notation
import Perpetua.Lib.Json
import Perpetua.Lib.Sha256

/-!
# Certificates

Certificates and keys as the TLS modules see them: a private key is known by its public key, and a
signature by the key that made it. Times are microseconds.
-/

namespace Perpetua.Tls

/-- A `SubjectAlternativeName` extension: names, and addresses in their canonical text. -/
structure SubjectAltNames where
  dns : List String
  ips : List String
  deriving DecidableEq

structure Certificate (κ : Type) where
  subject : String
  issuer : String
  publicKey : κ
  signedBy : κ
  serial : ℕ
  notAfter : ℤ
  sans : Option SubjectAltNames
  deriving DecidableEq

/-- The encodings of a certificate, and `str.lower`. No law is assumed. -/
class CertLib (κ : Type) where
  der : Certificate κ → List (BitVec 8)
  pem : Certificate κ → List (BitVec 8)
  lower : String → String

/-- A certificate is encoded as its serial number. -/
@[reducible] def serialCerts : CertLib ℕ where
  der cert := [BitVec.ofNat 8 cert.serial]
  pem cert := [BitVec.ofNat 8 cert.serial]
  lower s := s

variable {κ : Type}

/-- `der_sha256`. -/
def fingerprint [CertLib κ] (cert : Certificate κ) : String := Sha256.hexdigest (CertLib.der cert)

/-- `timedelta(days=n)`. -/
def days (n : ℤ) : ℤ := n * 86400000000

/-- What a certificate keeps of a time. -/
def wholeSeconds (t : ℤ) : ℤ := t / 1000000 * 1000000

/-- The `days` of what remains of a certificate. -/
def Certificate.remainingDays (cert : Certificate κ) (now : ℤ) : ℤ :=
  (cert.notAfter - now) / 86400000000

/-- Whether the certificate has every wanted name, in any case. -/
def Certificate.coversDns [CertLib κ] (cert : Certificate κ) (dns : List String) : Bool :=
  cert.sans.any fun sans =>
    (dns.map (CertLib.lower κ)).all (sans.dns.map (CertLib.lower κ)).contains

/-- Whether the certificate has every wanted address. -/
def Certificate.coversIps (cert : Certificate κ) (ips : List String) : Bool :=
  cert.sans.any fun sans => ips.all sans.ips.contains

/-- A pin file: `notJson` is any text that `json.loads` refuses. -/
inductive PinFile
  | missing
  | notJson
  | json (value : Json.Value)

/-- `[:16]` and what an error message puts behind it. -/
def shortened (fp : String) : String := .ofList (fp.toList.take 16)

end Perpetua.Tls

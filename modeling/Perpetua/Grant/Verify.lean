import Mathlib.Logic.Function.Basic
import Perpetua.Grant.Ledger
import Perpetua.Lib.PyText
import Perpetua.Lib.Sha256

/-!
# Grant verification

The model of `verify_grant_fields`, and of the processes that share a ledger. A verification reads
the clock for the time to live before it takes the lock, and it takes the lock twice.
-/

namespace Perpetua.Grant

/-- `datetime.fromisoformat` on a grant's time, which counts as UTC without an offset. No law is
assumed. -/
class TimeText where
  parseTimestamp : String → Option ℤ

abbrev Bytes := List (BitVec 8)

/-! ## Checks of the fields -/

/-- `[a-zA-Z0-9_.-]`. -/
def isSlugChar (c : Char) : Bool := c.isAlphanum || ['_', '.', '-'].contains c

/-- `_validate_repo_slug`. -/
def validateRepoSlug (repo : String) : Except String Unit :=
  match (PyText.strip repo).toList.splitOn '/' with
  | [owner, name] =>
      if owner ≠ [] ∧ name ≠ [] ∧ owner.all isSlugChar ∧ name.all isSlugChar then .ok ()
      else .error
        "grant repo must not contain pipe or newline characters and must match 'owner/repo'"
  | _ => .error
      "grant repo must not contain pipe or newline characters and must match 'owner/repo'"

/-- `_validate_pr_number`. -/
def validatePrNumber (pr : String) : Except String Unit :=
  match (PyText.strip pr).toList with
  | c :: rest =>
      if c.isDigit ∧ c ≠ '0' ∧ rest.all Char.isDigit then .ok ()
      else .error
        "grant pr_number must not contain pipe or newline characters and must be a positive integer"
  | [] => .error
      "grant pr_number must not contain pipe or newline characters and must be a positive integer"

/-- Whether a grant of that time passes the check of the time to live. -/
def ttlOk (issued now : ℤ) : Bool := 0 ≤ now - issued && now - issued ≤ grantTtl

/-- `_grant_ttl_ok`. -/
def grantTtlOk [TimeText] (issuedRaw : String) (now : ℤ) : Bool :=
  (TimeText.parseTimestamp issuedRaw).any fun issued => ttlOk issued now

/-! ## Signatures -/

/-- `hmac.new(secret, payload, hashlib.sha256).hexdigest()`. -/
def sign (secret payload : Bytes) : String :=
  let bytesOf (ws : List Sha256.Word) : Bytes :=
    ws.flatMap fun w => [24, 16, 8, 0].map fun k => (w >>> k).setWidth 8
  let key := if 64 < secret.length then bytesOf (Sha256.digest secret) else secret
  let block := key ++ List.replicate (64 - key.length) 0
  let inner := bytesOf (Sha256.digest (block.map (· ^^^ 0x36) ++ payload))
  Sha256.hexdigest (block.map (· ^^^ 0x5c) ++ inner)

/-- `canonical_payload_bytes`. -/
def canonicalPayloadBytes (repo pr nonce issuedAt action contentDigest : String) : Bytes :=
  Sha256.utf8 ("grant-v2|" ++ repo ++ "|" ++ pr ++ "|" ++ nonce ++ "|" ++ issuedAt ++ "|" ++
    action ++ "|" ++ contentDigest)

/-! ## verify_grant_fields -/

def grantMarker : String := "operator-grant-v2"

def defaultAction : String := "append_integrative"

/-- The arguments of `verify_grant_fields`. -/
structure VerifyCall where
  fields : List (String × String)
  repo : String
  prNumber : String
  contentDigest : String
  action : String := defaultAction
  checkNonceConsumed : Bool := true
  deriving DecidableEq

def VerifyCall.get (c : VerifyCall) (key : String) : String := (Entries.get? c.fields key).getD ""

/-- How an f-string shows `fields.get`. -/
def VerifyCall.shown (c : VerifyCall) (key : String) : String :=
  (Entries.get? c.fields key).getD "None"

def VerifyCall.nonce (c : VerifyCall) : String := c.get "grant-nonce"

def VerifyCall.grantAction (c : VerifyCall) : String :=
  (Entries.get? c.fields "action").getD defaultAction

inductive Verdict
  | granted
  | refused (reason : String)
  /-- `hmac.compare_digest` on a text beyond ASCII. -/
  | typeError
  deriving DecidableEq

/-- The checks before the ledger is looked at. -/
def VerifyCall.checkFields [TimeText] (c : VerifyCall) (now : ℤ) : Except String Unit := do
  validateRepoSlug c.repo
  validatePrNumber c.prNumber
  if Entries.get? c.fields "marker" ≠ some grantMarker then
    if Entries.get? c.fields "marker" = some "operator-grant-v1" then
      .error ("operator-grant-v1 is no longer accepted; re-run grant with matching " ++
        "--file or --message in an operator terminal")
    else .error "operator grant file missing or not grant v2"
  else if !grantTtlOk (c.get "issued-at") now then
    .error "operator grant expired or invalid issued-at (8h TTL)"
  else if c.get "repo" ≠ c.repo then
    .error ("grant repo mismatch (grant=" ++ c.shown "repo" ++ " want=" ++ c.repo ++ ")")
  else if c.get "pr-number" ≠ c.prNumber then
    .error ("grant PR mismatch (grant=" ++ c.shown "pr-number" ++ " want=" ++ c.prNumber ++ ")")
  else if c.grantAction ≠ c.action then
    .error ("grant action mismatch (grant=" ++ c.grantAction ++ " want=" ++ c.action ++ ")")
  else if c.get "content-digest" ≠ c.contentDigest then
    .error "grant content-digest mismatch; re-grant with the same append payload"
  else if c.nonce = "" then .error "grant missing grant-nonce"
  else .ok ()

/-- The checks after it; the secret is an error where none is found. -/
def VerifyCall.checkToken (c : VerifyCall) (secret : Except String Bytes) : Verdict :=
  if c.get "token" = "" then .refused "grant missing HMAC token"
  else
    match secret with
    | .error e => .refused e
    | .ok secret =>
        let expected := sign secret (canonicalPayloadBytes c.repo c.prNumber c.nonce
          (c.get "issued-at") c.grantAction (c.get "content-digest"))
        if (c.get "token").toList.any fun ch => 0x80 ≤ ch.toNat then .typeError
        else if c.get "token" = expected then .granted
        else .refused "grant HMAC verification failed"

/-! ## Processes on one ledger -/

/-- Where a verification is. -/
inductive Verification
  | idle
  /-- Before `nonce_is_consumed`. -/
  | checking (call : VerifyCall)
  /-- Before `_reservation_blocks_verify`. -/
  | checked (call : VerifyCall)
  | done (verdict : Verdict)
  deriving DecidableEq

/-- A ledger that processes share, with the latest reading of the clock. -/
structure System (ν : Type) where
  ledger : Ledger := {}
  clock : ℤ
  verification : ν → Verification
  /-- The nonces of the consumptions that have succeeded. -/
  consumed : List String := []

/-- One operation on the ledger, or the start of a verification, with its readings of the clock. -/
inductive Action (ν : Type)
  | reserve (nonce : String) (binding : Binding) (now stamp : ℤ)
  | markRemoteApplied (nonce : String) (now : ℤ)
  | markMatchingRemoteApplied (nonce repo pr contentDigest remoteBodyDigest : String) (now : ℤ)
  | release (nonce : String) (now : ℤ)
  | consume (nonce : String) (requireRemoteApplied : Bool) (now stamp : ℤ)
  | verify (v : ν) (call : VerifyCall) (now : ℤ)
  | checkConsumed (v : ν) (now : ℤ)
  | checkReservation (v : ν) (now : ℤ) (secret : Except String Bytes)

/-- The reading that prunes, or that the time to live is checked at. -/
def Action.now {ν : Type} : Action ν → ℤ
  | reserve _ _ now _ | markRemoteApplied _ now | markMatchingRemoteApplied _ _ _ _ _ now
  | release _ now | consume _ _ now _ | verify _ _ now | checkConsumed _ now
  | checkReservation _ now _ => now

/-- The last reading. -/
def Action.latest {ν : Type} : Action ν → ℤ
  | reserve _ _ _ stamp | consume _ _ _ stamp => stamp
  | a => a.now

section

variable {ν : Type} [DecidableEq ν] [TimeText]

def System.conclude (s : System ν) (v : ν) (p : Verification) : System ν :=
  { s with verification := Function.update s.verification v p }

/-- The effect of an action, the clock apart. -/
def act (s : System ν) : Action ν → System ν
  | .reserve nonce binding now stamp =>
      { s with ledger := (reserveNonceAtomic nonce binding now stamp s.ledger).2 }
  | .markRemoteApplied nonce now =>
      { s with ledger := (markRemoteAppliedAtomic nonce now s.ledger).2 }
  | .markMatchingRemoteApplied nonce repo pr contentDigest remoteBodyDigest now =>
      { s with ledger := (markMatchingRemoteAppliedAtomic nonce repo pr contentDigest
          remoteBodyDigest now s.ledger).2 }
  | .release nonce now => { s with ledger := releaseNonceReservationAtomic nonce now s.ledger }
  | .consume nonce requireRemoteApplied now stamp =>
      match consumeNonceAtomic nonce requireRemoteApplied now stamp s.ledger with
      | (true, ledger) => { s with ledger, consumed := s.consumed ++ [nonce] }
      | (false, _) => s
  | .verify v call now =>
      match s.verification v with
      | .idle =>
          match call.checkFields now with
          | .error reason => s.conclude v (.done (.refused reason))
          | .ok () => s.conclude v (if call.checkNonceConsumed then .checking call else .checked call)
      | _ => s
  | .checkConsumed v now =>
      match s.verification v with
      | .checking call =>
          if nonceIsConsumed call.nonce now s.ledger then
            s.conclude v (.done (.refused alreadyConsumed))
          else s.conclude v (.checked call)
      | _ => s
  | .checkReservation v now secret =>
      match s.verification v with
      | .checked call =>
          match reservationBlocksVerify call.nonce call.repo call.prNumber call.contentDigest now
            s.ledger with
          | some reason => s.conclude v (.done (.refused reason))
          | none => s.conclude v (.done (call.checkToken secret))
      | _ => s

def step (s : System ν) (a : Action ν) : System ν := { act s a with clock := a.latest }

end

end Perpetua.Grant

import Perpetua.Grant.Verify
import Perpetua.Lib.PyLines

/-!
# Grants and their files

The model of `mint_grant`, of the file that it writes and of `parse_ack_text`, and
`verify_grant_fields` as one function. The nonce and the time of a grant are drawn outside of the
model.
-/

namespace Perpetua.Grant

/-- What is signed. -/
structure GrantTuple where
  repo : String
  prNumber : String
  nonce : String
  issuedAt : String
  action : String
  contentDigest : String
  deriving DecidableEq

def GrantTuple.payload (t : GrantTuple) : Bytes :=
  canonicalPayloadBytes t.repo t.prNumber t.nonce t.issuedAt t.action t.contentDigest

/-! ## mint_grant -/

/-- `content_digest_for_append`, on the bytes that are appended. -/
def contentDigestForAppend (data : Bytes) : String := "sha256:" ++ Sha256.hexdigest data

/-- A call of `mint_grant`: the data to append are an error when they cannot be read. -/
structure MintCall where
  repo : String
  prNumber : String
  data : Except String Bytes
  issuedAt : String
  nonce : String

/-- The tuple that `mint_grant` signs. -/
def MintCall.tuple (m : MintCall) : Except String GrantTuple := do
  validateRepoSlug m.repo
  validatePrNumber m.prNumber
  let data ← m.data
  return {
    repo := m.repo
    prNumber := m.prNumber
    nonce := m.nonce
    issuedAt := m.issuedAt
    action := defaultAction
    contentDigest := contentDigestForAppend data }

def ackLine (key value : String) : String := key ++ "=" ++ value ++ "\n"

/-- The file that `mint_grant` writes. -/
def GrantTuple.ackText (t : GrantTuple) (token : String) : String :=
  grantMarker ++ "\n" ++
  ackLine "issued-at" t.issuedAt ++
  ackLine "repo" t.repo ++
  ackLine "pr-number" t.prNumber ++
  ackLine "action" t.action ++
  ackLine "content-digest" t.contentDigest ++
  ackLine "grant-nonce" t.nonce ++
  ackLine "token" token

/-- `mint_grant`. -/
def mintGrant (secret : Except String Bytes) (m : MintCall) : Except String String := do
  let t ← m.tuple
  let secret ← secret
  return t.ackText (sign secret t.payload)

/-- The tuples that are signed in a sequence of calls. -/
def mintedBy (calls : List MintCall) : List GrantTuple := calls.filterMap fun m => m.tuple.toOption

/-! ## parse_ack_text -/

/-- One line of the file. -/
def parseAckLine (fields : List (String × String)) (line : List Char) : List (String × String) :=
  let line := PyText.strip (.ofList line)
  if line.toList = [] ∨ line.toList.head? = some '#' then fields
  else if '=' ∈ line.toList then
    let key := line.toList.takeWhile (· ≠ '=')
    let value := (line.toList.dropWhile (· ≠ '=')).tail
    Entries.set fields (PyText.strip (.ofList key)) (PyText.strip (.ofList value))
  else if line = grantMarker ∨ line = "operator-grant-v1" then Entries.set fields "marker" line
  else fields

def parseAckText (text : String) : List (String × String) :=
  (PyText.splitlines text.toList).foldl parseAckLine []

/-! ## verify_grant_fields -/

/-- A ledger with the time at which it is pruned. -/
abbrev Reading := ℤ × Ledger

/-- `verify_grant_fields`, with the time of the check of the time to live and the two readings of the
ledger. -/
def VerifyCall.verify [TimeText] (c : VerifyCall) (now : ℤ) (first second : Reading)
    (secret : Except String Bytes) : Verdict :=
  match c.checkFields now with
  | .error reason => .refused reason
  | .ok () =>
      if c.checkNonceConsumed && nonceIsConsumed c.nonce first.1 first.2 then .refused alreadyConsumed
      else
        match reservationBlocksVerify c.nonce c.repo c.prNumber c.contentDigest second.1 second.2 with
        | some reason => .refused reason
        | none => c.checkToken secret

/-- The tuple whose signature is compared with the token. -/
def VerifyCall.tuple (c : VerifyCall) : GrantTuple where
  repo := c.repo
  prNumber := c.prNumber
  nonce := c.nonce
  issuedAt := c.get "issued-at"
  action := c.grantAction
  contentDigest := c.get "content-digest"

end Perpetua.Grant

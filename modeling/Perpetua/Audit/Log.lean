import Perpetua.Lib.JsonParser
import Perpetua.Lib.PyText
import Perpetua.Lib.Sha256

/-!
# The audit log

The model of `orchestrator/audit_log.py`: a hash chain of entries, kept in memory and written to a
file of JSON lines. Signers and signature verifiers are parameters. A write can fail with any part of
its line in the file already.
-/

namespace Perpetua.Audit

/-- A row of the log, with the hash that was computed when it was built. A file can hold any value
in the fields that nothing checks. -/
structure AuditEntry where
  sequenceNumber : Json.Value
  timestamp : Json.Value
  peerId : Json.Value
  oldStatus : Json.Value
  newStatus : Json.Value
  witnesses : List Json.Value
  previousHash : String
  signature : Json.Value
  hash : String

/-! ## Content and hash -/

/-- The fields that are hashed. -/
def AuditEntry.contentFields (e : AuditEntry) : List (String × Json.Value) :=
  [("sequence_number", e.sequenceNumber), ("timestamp", e.timestamp), ("peer_id", e.peerId),
    ("old_status", e.oldStatus), ("new_status", e.newStatus), ("witnesses", .arr e.witnesses),
    ("previous_hash", .str e.previousHash), ("signature", e.signature)]

/-- `_content_bytes`; the text is ASCII. -/
def AuditEntry.contentBytes (e : AuditEntry) : List Char :=
  Json.dumps Json.compact (Json.sortKeys (.obj e.contentFields))

/-- `_unsigned_content_bytes`. -/
def AuditEntry.unsignedContentBytes (e : AuditEntry) : List Char :=
  AuditEntry.contentBytes { e with signature := .str "" }

/-- `_payload`. -/
def AuditEntry.payload (e : AuditEntry) : Json.Value :=
  .obj (e.contentFields ++ [("hash", .str e.hash)])

/-- The line that `append` writes. -/
def AuditEntry.line (e : AuditEntry) : List Char :=
  Json.dumps Json.spaced (Json.sortKeys e.payload) ++ ['\n']

/-- Why an operation of the log raises. -/
inductive AuditError
  | chainIntegrity
  | jsonDecode
  /-- `AttributeError`, `OSError` or whatever else a signer or the file system raises. -/
  | raised
  deriving DecidableEq

abbrev SignatureVerifier := List Char → Json.Value → Bool

section Chain

/-- What `_compute_hash` hashes. -/
def AuditEntry.hashedBytes (e : AuditEntry) : List (BitVec 8) :=
  Sha256.utf8 e.previousHash ++ Sha256.utf8 (.ofList e.contentBytes)

/-- `_compute_hash`. -/
def AuditEntry.computeHash (e : AuditEntry) : String := Sha256.hexdigest e.hashedBytes

/-- `__post_init__`. -/
def AuditEntry.postInit (e : AuditEntry) : AuditEntry := { e with hash := e.computeHash }

variable (verifier : Option SignatureVerifier)

/-- The entry passes the signature verifier; an empty signature is not asked for. -/
def signatureOk (e : AuditEntry) : Bool :=
  verifier.all fun verify => !e.signature.truthy || verify e.unsignedContentBytes e.signature

/-- The loop of `verify_chain`, from a sequence number and the hash before it. -/
def verifyFrom (expected : ℤ) (previousHash : String) : List AuditEntry → Bool
  | [] => true
  | e :: es =>
      e.sequenceNumber.equalsInt expected && e.previousHash = previousHash &&
        e.computeHash = e.hash &&
        signatureOk verifier e && verifyFrom (expected + 1) e.hash es

/-- `verify_chain`. -/
def verifyChain (entries : List AuditEntry) : Except AuditError Unit :=
  if verifyFrom verifier 0 "" entries then .ok () else .error .chainIntegrity

end Chain

/-! ## Reading the file -/

/-- `tuple` of a value. -/
def items? : Json.Value → Option (List Json.Value)
  | .arr items => some items
  | .str s => some (s.toList.map fun c => .str (.singleton c))
  | .obj fields => some (fields.map fun f => .str f.1)
  | _ => none

/-- The entry of a row, and the hash that the row stores. The constructor encodes the previous hash,
which only a text can do. -/
def entryOfRow : Json.Value → Except AuditError (Json.Value × AuditEntry)
  | .obj fields =>
      let row := do
        let hash ← Entries.get? fields "hash"
        let sequenceNumber ← Entries.get? fields "sequence_number"
        let timestamp ← Entries.get? fields "timestamp"
        let peerId ← Entries.get? fields "peer_id"
        let oldStatus ← Entries.get? fields "old_status"
        let newStatus ← Entries.get? fields "new_status"
        let witnesses ← (Entries.get? fields "witnesses").bind items?
        let previousHash ← Entries.get? fields "previous_hash"
        let signature ← Entries.get? fields "signature"
        some (hash, previousHash, fun previousHash => AuditEntry.postInit
          { sequenceNumber, timestamp, peerId, oldStatus, newStatus, witnesses, previousHash
            signature, hash := "" })
      match row with
      | none => .error .chainIntegrity
      | some (hash, .str previousHash, entry) => .ok (hash, entry previousHash)
      | some _ => .error .raised
  | _ => .error .chainIntegrity

section Replay

variable [Json.FloatReader] (verifier : Option SignatureVerifier)

/-- One line of `_replay_persisted`; a blank line holds no entry. -/
def replayLine (line : List Char) : Except AuditError (List AuditEntry) :=
  let line := (PyText.strip (.ofList line)).toList
  if line = [] then .ok []
  else
    match Json.loads line with
    | none => .error .jsonDecode
    | some payload =>
        match entryOfRow payload with
        | .error e => .error e
        | .ok (persistedHash, entry) =>
            if persistedHash.str? = some entry.hash && signatureOk verifier entry then .ok [entry]
            else .error .chainIntegrity

/-- The lines of a text stream. -/
def fileLines (content : List Char) : List (List Char) :=
  content.splitOnP fun c => c == '\n' || c == '\r'

/-- `_replay_persisted`. -/
def replayPersisted (content : List Char) : Except AuditError (List AuditEntry) := do
  let entries ← (fileLines content).mapM (replayLine verifier)
  return entries.flatten

/-- `AuditLog.__init__` on a path: the content of the file there, if there is one. -/
def openLog (content : Option (List Char)) : Except AuditError (List AuditEntry) :=
  match content with
  | none => .ok []
  | some content => do
      let entries ← replayPersisted verifier content
      verifyChain verifier entries
      return entries

end Replay

/-! ## Appending -/

/-- The `persist_path` and what is there. -/
inductive Sink
  | memory
  | path (content : Option (List Char))
  deriving DecidableEq

structure AuditLog where
  entries : List AuditEntry := []
  sink : Sink

/-- Where the write of a line raises. -/
inductive Fault
  | atOpen
  /-- In `write`, `flush`, `fsync` or `close`, with that many characters in the file at the end. -/
  | after (count : ℕ)
  deriving DecidableEq

structure AppendArgs where
  peerId : String
  oldStatus : String
  newStatus : String
  witnesses : List String := []
  timestamp : Option Json.Number := none
  /-- A signer that returns `none` raises. -/
  signer : Option (List Char → Option String) := none

/-- What an append meets: the time and, if its write fails, where. -/
structure AppendEnv where
  now : Json.Number
  fault : Option Fault := none

/-- The file after a write, and whether the write has raised. -/
def Sink.write (line : List Char) (fault : Option Fault) : Sink → Sink × Bool
  | .memory => (.memory, false)
  | .path content =>
      match fault with
      | none => (.path (some (content.getD [] ++ line)), false)
      | some .atOpen => (.path content, true)
      | some (.after count) => (.path (some (content.getD [] ++ line.take count)), true)

/-- The fields of an entry that `append` builds. -/
structure Record where
  sequenceNumber : ℤ
  timestamp : Json.Number
  peerId : String
  oldStatus : String
  newStatus : String
  witnesses : List String
  previousHash : String
  signature : String

def Record.entry (r : Record) : AuditEntry :=
  AuditEntry.postInit
    { sequenceNumber := .num (.int r.sequenceNumber), timestamp := .num r.timestamp
      peerId := .str r.peerId, oldStatus := .str r.oldStatus, newStatus := .str r.newStatus
      witnesses := r.witnesses.map .str, previousHash := r.previousHash
      signature := .str r.signature, hash := "" }

section Append

variable (verifier : Option SignatureVerifier)

/-- The entry that `append` builds, or `none` when the signer raises. -/
def AuditLog.nextEntry (log : AuditLog) (args : AppendArgs) (now : Json.Number) :
    Option AuditEntry :=
  let provisional : Record :=
    { sequenceNumber := log.entries.length, timestamp := args.timestamp.getD now
      peerId := args.peerId, oldStatus := args.oldStatus, newStatus := args.newStatus
      witnesses := args.witnesses, previousHash := (log.entries.getLast?.map (·.hash)).getD ""
      signature := "" }
  let signature := match args.signer with
    | none => some ""
    | some sign => sign provisional.entry.contentBytes
  signature.map fun signature => Record.entry { provisional with signature }

/-- `append`: the entry joins the chain once its line is written. -/
def AuditLog.append (log : AuditLog) (args : AppendArgs) (env : AppendEnv) :
    AuditLog × Except AuditError AuditEntry :=
  match verifyChain verifier log.entries with
  | .error e => (log, .error e)
  | .ok () =>
      match log.nextEntry args env.now with
      | none => (log, .error .raised)
      | some entry =>
          let (sink, failed) := log.sink.write entry.line env.fault
          if failed then ({ log with sink }, .error .raised)
          else ({ entries := log.entries ++ [entry], sink }, .ok entry)

end Append

end Perpetua.Audit

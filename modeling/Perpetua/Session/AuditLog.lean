import Perpetua.Lib.JsonLines

/-!
# The session audit log

The model of `AuditLog` in `utils/audit_log.py` on the characters of its file. `json.dumps` writes
ASCII, so a byte of a line is a character.
-/

namespace Perpetua.Session

section

variable [Json.FloatReader]

/-- An `AuditEvent`: its detail is a value as the decoder builds it, with floats as `repr` writes
them. -/
structure AuditEvent where
  /-- `ts.isoformat()`. -/
  ts : String
  event : String
  actor : String
  detail : List (String × Json.Value) := []
  distinct : Json.Distinct detail
  readable : ∀ e ∈ detail, e.2.read = e.2

/-- The record of `append`. -/
def AuditEvent.record (e : AuditEvent) : List (String × Json.Value) :=
  [("ts", .str e.ts), ("event", .str e.event), ("actor", .str e.actor), ("detail", .obj e.detail)]

/-- What `_write_record` writes, without the line feed. -/
def AuditEvent.body (e : AuditEvent) : List Char := Json.dumps Json.compact (.obj e.record)

def AuditEvent.line (e : AuditEvent) : List Char := e.body ++ ['\n']

/-- `_write_record`: the line is written at the end of the file, whatever stands there. -/
def writeRecord (content : List Char) (e : AuditEvent) : List Char := content ++ e.line

/-- `read_all`, where the file exists or not: nothing at all when a line does not decode. -/
def readAll (content : Option (List Char)) : List Json.Value :=
  match content with
  | none => []
  | some content =>
      let lines := (PyText.splitlines content).filter fun line => !PyText.blank (.ofList line)
      (lines.mapM Json.loads).getD []

/-- `count`. -/
def count (content : Option (List Char)) : ℕ := (readAll content).length

/-! ## Crashes -/

/-- Complete appends, and a last one of which `k` characters have reached the file. -/
def crashed (before : List AuditEvent) (last : AuditEvent) (k : ℕ) : List Char :=
  before.foldl writeRecord [] ++ last.line.take k

/-- The events whose appends are complete. -/
def completed (before : List AuditEvent) (last : AuditEvent) (k : ℕ) : List AuditEvent :=
  if last.line.length ≤ k then before ++ [last] else before

/-- Every event whose append is complete is read back, in order, and they are counted. -/
def Readable (before : List AuditEvent) (last : AuditEvent) (k : ℕ) (after : List AuditEvent) :
    Prop :=
  let content := some (after.foldl writeRecord (crashed before last k))
  let events := completed before last k ++ after
  (events.map fun e => Json.Value.obj e.record).Sublist (readAll content) ∧
    count content = events.length

end

end Perpetua.Session

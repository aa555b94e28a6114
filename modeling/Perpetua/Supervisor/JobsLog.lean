import Perpetua.Lib.JsonObjects
import Perpetua.Lib.PyText

/-!
# The jobs log

The model of `_append_event` and `_load_events` on the characters of `jobs.jsonl`. `json.dumps`
writes ASCII, so a byte of a line is a character.
-/

namespace Perpetua.Supervisor

section Floats

variable [Json.FloatReader]

/-- An event that is appended: its fields are a value as the decoder builds it, with floats as
`repr` writes them. -/
structure JobEvent where
  ts : String
  jobId : String
  fields : List (String × Json.Value)
  distinct : Json.Distinct fields
  readable : ∀ e ∈ fields, e.2.read = e.2

/-- The record of an event: `ts` and `job_id` come first, and the event's own fields replace them. -/
def JobEvent.record (e : JobEvent) : List (String × Json.Value) :=
  Entries.update [("ts", .str e.ts), ("job_id", .str e.jobId)] e.fields

/-- The line without its line feed. -/
def JobEvent.body (e : JobEvent) : List Char := Json.dumps Json.spaced (.obj e.record)

def JobEvent.line (e : JobEvent) : List Char := e.body ++ ['\n']

/-- `_append_event`: the line is written at the end of the file, whatever stands there. -/
def appendLine (content : List Char) (e : JobEvent) : List Char := content ++ e.line

/-- The line boundaries of `str.splitlines`. -/
def isLineBoundary (c : Char) : Bool :=
  let n := c.toNat
  (0x0A ≤ n && n ≤ 0x0D) || (0x1C ≤ n && n ≤ 0x1E) || n == 0x85 || n == 0x2028 || n == 0x2029

/-- What `_load_events` makes of a line: a blank one and one that does not decode are skipped. -/
def loadLine (line : List Char) : Option Json.Value :=
  let raw := (PyText.strip (.ofList line)).toList
  if raw = [] then none else Json.loads raw

/-- `_load_events`. An empty line more or less between two boundaries makes no difference. -/
def loadEvents (content : List Char) : List Json.Value :=
  (content.splitOnP isLineBoundary).filterMap loadLine

/-! ## Crashes -/

/-- Complete writes, and a last one of which `k` characters have reached the file. -/
def crashed (before : List JobEvent) (last : JobEvent) (k : ℕ) : List Char :=
  before.flatMap JobEvent.line ++ last.line.take k

/-- The events whose writes are complete. -/
def completed (before : List JobEvent) (last : JobEvent) (k : ℕ) : List JobEvent :=
  if last.line.length ≤ k then before ++ [last] else before

/-- After the restart every complete event and every event appended since is loaded, in order. -/
def Recovers (before : List JobEvent) (last : JobEvent) (k : ℕ) (after : List JobEvent) : Prop :=
  ((completed before last k ++ after).map fun e => Json.Value.obj e.record).Sublist
    (loadEvents (after.foldl appendLine (crashed before last k)))

end Floats

end Perpetua.Supervisor

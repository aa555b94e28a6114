import Perpetua.Lib.JsonRoundTrip
import Perpetua.Audit.Log

/-!
# Replaying a file

A line that `append` wrote whole is replayed as its entry, so a file of whole lines is replayed as
the list of their entries.
-/

namespace Perpetua.Audit

/-! ## The row of an entry -/

/-- The fields of a row as they are written. -/
def Record.sortedFields (r : Record) : List (String × Json.Value) :=
  [("hash", .str r.entry.hash), ("new_status", .str r.newStatus), ("old_status", .str r.oldStatus),
    ("peer_id", .str r.peerId), ("previous_hash", .str r.previousHash),
    ("sequence_number", .num (.int r.sequenceNumber)), ("signature", .str r.signature),
    ("timestamp", .num r.timestamp), ("witnesses", .arr (r.witnesses.map .str))]

theorem sortKeysItems_strs (ws : List String) :
    Json.sortKeysItems (ws.map .str) = ws.map Json.Value.str := by
  induction ws with
  | nil => rfl
  | cons w ws ih => rw [List.map_cons, Json.sortKeysItems, Json.sortKeys, ih]

theorem sortKeys_payload (r : Record) : Json.sortKeys r.entry.payload = .obj r.sortedFields := by
  simp [AuditEntry.payload, AuditEntry.contentFields, Record.sortedFields, Record.entry,
    AuditEntry.postInit, Json.sortKeys, Json.sortKeysFields, Json.insertField, sortKeysItems_strs]

theorem sortedFields_distinct (r : Record) : (Json.Value.obj r.sortedFields).DistinctKeys := by
  refine .obj (by simp [Record.sortedFields]) fun f hf => ?_
  simp only [Record.sortedFields, List.mem_cons, List.not_mem_nil, or_false] at hf
  rcases hf with rfl | rfl | rfl | rfl | rfl | rfl | rfl | rfl | rfl
  case inr.inr.inr.inr.inr.inr.inr.inr =>
    refine .arr fun v hv => ?_
    obtain ⟨w, -, rfl⟩ := List.mem_map.mp hv
    exact .str w
  all_goals first | exact .str _ | exact .num _

theorem entryOfRow_sortedFields (r : Record) :
    entryOfRow (.obj r.sortedFields) = .ok (.str r.entry.hash, r.entry) := by
  simp [entryOfRow, Record.sortedFields, Entries.get?_cons, items?, Record.entry]

section Floats

variable [Json.FloatReader]

theorem readItems_strs (ws : List String) :
    Json.readItems (ws.map .str) = ws.map Json.Value.str := by
  induction ws with
  | nil => rfl
  | cons w ws ih => rw [List.map_cons, Json.readItems, Json.Value.read, ih]

theorem read_sortedFields {r : Record} (h : r.timestamp.read = r.timestamp) :
    (Json.Value.obj r.sortedFields).read = .obj r.sortedFields := by
  have hseq : (Json.Number.int r.sequenceNumber).read = .int r.sequenceNumber := rfl
  simp [Record.sortedFields, Json.Value.read, Json.readFields, readItems_strs, h, hseq]

end Floats

/-! ## Lines -/

/-- The line of a record without its line feed. -/
def Record.body (r : Record) : List Char := Json.dumps Json.spaced (.obj r.sortedFields)

theorem Record.line_eq (r : Record) : r.entry.line = r.body ++ ['\n'] := by
  rw [AuditEntry.line, sortKeys_payload, body]

theorem printable_body (r : Record) : r.body.all Json.printable :=
  Json.printable_dumps (by decide) (by decide) (sortedFields_distinct r)

theorem body_head (r : Record) : r.body.head? = some '\x7b' := rfl

theorem body_getLast? (r : Record) : r.body.getLast? = some '\x7d' := by
  exact Json.dumps_obj_getLast? _ _

theorem body_ne_nil (r : Record) : r.body ≠ [] := fun h => by
  have := body_head r
  rw [h] at this
  cases this

theorem strip_body (r : Record) : (PyText.strip (.ofList r.body)).toList = r.body := by
  rw [PyText.strip_ofList_of_ends, String.toList_ofList]
  · rw [body_head]; decide
  · rw [body_getLast?]; decide

theorem body_not_newline (r : Record) : ∀ c ∈ r.body, (c == '\n' || c == '\r') = false := by
  intro c hc
  have hprintable := List.all_eq_true.mp (printable_body r) c hc
  simp only [Json.printable, Bool.and_eq_true, decide_eq_true_eq] at hprintable
  simp only [Bool.or_eq_false_iff, beq_eq_false_iff_ne]
  constructor <;> (rintro rfl; exact absurd hprintable.1 (by decide))

theorem fileLines_lines (records : List Record) :
    fileLines (records.flatMap (·.entry.line)) = records.map Record.body ++ [[]] := by
  unfold fileLines
  induction records with
  | nil => rfl
  | cons r records ih =>
      rw [List.flatMap_cons, r.line_eq, List.append_assoc, List.singleton_append,
        List.splitOnP_append_cons_of_forall_mem (body_not_newline r) '\n' (by decide), ih]
      rfl

/-- An entry that replay accepts. -/
structure AuditEntry.Sound (verifier : Option SignatureVerifier) (e : AuditEntry) : Prop where
  hash : e.computeHash = e.hash
  signature : signatureOk verifier e

/-! ## Replay -/

section Replay

variable [Json.FloatReader] {verifier : Option SignatureVerifier}

/-- A record that replay reads back: its timestamp is a float as `repr` writes it. -/
structure Record.Readable (verifier : Option SignatureVerifier) (r : Record) : Prop where
  timestamp : r.timestamp.read = r.timestamp
  signature : signatureOk verifier r.entry

theorem replayLine_body {r : Record} (h : r.Readable verifier) :
    replayLine verifier r.body = .ok [r.entry] := by
  rw [replayLine]
  simp only [strip_body]
  rw [if_neg (body_ne_nil r), Record.body, Json.loads_dumps Json.spaced_readable
    (sortedFields_distinct r) (read_sortedFields h.timestamp)]
  simp only [entryOfRow_sortedFields, Json.Value.str?, h.signature, decide_true, Bool.and_self,
    if_true]

theorem replayLine_nil (verifier : Option SignatureVerifier) : replayLine verifier [] = .ok [] := by
  rw [replayLine]
  exact if_pos (by decide)

/-- A file of whole lines is replayed as their entries. -/
theorem replayPersisted_lines {records : List Record} (h : ∀ r ∈ records, r.Readable verifier) :
    replayPersisted verifier (records.flatMap (·.entry.line)) = .ok (records.map Record.entry) := by
  have hlines : (records.map Record.body ++ [[]]).mapM (replayLine verifier) =
      .ok (records.map (fun r => [r.entry]) ++ [[]]) := by
    induction records with
    | nil => rw [List.map_nil, List.nil_append, List.mapM_cons, replayLine_nil]; rfl
    | cons r records ih =>
        rw [List.map_cons, List.cons_append, List.mapM_cons, replayLine_body (h r List.mem_cons_self),
          ih fun x hx => h x (List.mem_cons_of_mem _ hx)]
        rfl
  have hflatten : (records.map (fun r : Record => [r.entry]) ++ [[]]).flatten =
      records.map Record.entry := by
    rw [List.flatten_append, ← List.flatMap_def, ← List.map_eq_flatMap]
    exact List.append_nil _
  rw [replayPersisted, fileLines_lines, hlines]
  exact congrArg Except.ok hflatten

end Replay

end Perpetua.Audit

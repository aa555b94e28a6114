import Perpetua.Session.AuditLog

/-!
# Reading the session audit log

One line that does not decode hides all the others.
-/

namespace Perpetua.Session

/-- A text that begins with a brace is no blank line. -/
theorem blank_brace (cs : List Char) : PyText.blank (.ofList ('\x7b' :: cs)) = false := by
  rw [PyText.blank_eq_false_iff, String.toList_ofList]
  exact ⟨'\x7b', List.mem_cons_self, by decide⟩

section

variable [Json.FloatReader]

/-! ## Lines -/

def AuditEvent.toRecord (e : AuditEvent) : Json.Record where
  fields := e.record
  distinct := by
    refine ⟨by simp [AuditEvent.record], ?_⟩
    simp only [AuditEvent.record, List.forall_mem_cons]
    exact ⟨.str _, .str _, .str _, .obj e.distinct.keys e.distinct.values, List.forall_mem_nil _⟩
  readable := by
    have hdetail : e.detail.map (fun f => (f.1, f.2.read)) = e.detail := by
      refine (List.map_congr_left fun f hf => ?_).trans (List.map_id _)
      rw [e.readable f hf]
      rfl
    simp only [AuditEvent.record, List.forall_mem_cons]
    refine ⟨rfl, rfl, rfl, ?_, List.forall_mem_nil _⟩
    rw [Json.Value.read, Json.readFields_eq_map, hdetail]
  first := ⟨'t', ['s'], .str e.ts, e.record.tail, rfl, by decide, by decide⟩

theorem loads_body (e : AuditEvent) : Json.loads e.body = some (.obj e.record) :=
  e.toRecord.loads_text Json.compact_readable

theorem printable_body (e : AuditEvent) : ∀ c ∈ e.body, Json.printable c :=
  List.all_eq_true.mp (e.toRecord.printable_text (by decide) (by decide))

theorem body_eq (e : AuditEvent) : ∃ cs, e.body = '\x7b' :: cs := by
  obtain ⟨c, cs, htext, -⟩ := e.toRecord.text_eq Json.compact
  exact ⟨_, htext⟩

/-- What is decoded of a text, line by line. -/
def decoded (content : List Char) : Option (List Json.Value) :=
  ((PyText.splitlines content).filter fun line => !PyText.blank (.ofList line)).mapM Json.loads

theorem readAll_some (content : List Char) : readAll (some content) = (decoded content).getD [] := rfl

/-- A line that begins with a brace is decoded, and then the rest. -/
theorem decoded_line {cs : List Char} (h : ∀ c ∈ '\x7b' :: cs, Json.printable c) (rest : List Char) :
    decoded ('\x7b' :: cs ++ '\n' :: rest) =
      (Json.loads ('\x7b' :: cs)).bind fun v => (decoded rest).map (v :: ·) := by
  rw [decoded, PyText.splitlines_line fun c hc => PyText.isLineBoundary_printable (h c hc),
    List.filter_cons_of_pos (by rw [blank_brace]; rfl), List.mapM_cons]
  cases Json.loads ('\x7b' :: cs) with
  | none => rfl
  | some v => cases hrest : decoded rest <;> rw [decoded] at hrest <;> rw [hrest] <;> rfl

theorem decoded_last {cs : List Char} (h : ∀ c ∈ '\x7b' :: cs, Json.printable c) :
    decoded ('\x7b' :: cs) = (Json.loads ('\x7b' :: cs)).map ([·]) := by
  rw [decoded, PyText.splitlines_last fun c hc => PyText.isLineBoundary_printable (h c hc),
    if_neg (List.cons_ne_nil _ _), List.filter_cons_of_pos (by rw [blank_brace]; rfl), List.filter_nil,
    List.mapM_cons]
  cases Json.loads ('\x7b' :: cs) <;> rfl

theorem decoded_nil : decoded [] = some [] := by
  rw [decoded, PyText.splitlines_nil]
  rfl

theorem foldl_writeRecord (events : List AuditEvent) (content : List Char) :
    events.foldl writeRecord content = content ++ events.flatMap AuditEvent.line := by
  induction events generalizing content with
  | nil => simp
  | cons e events ih => rw [List.foldl_cons, ih, writeRecord, List.flatMap_cons, List.append_assoc]

theorem decoded_lines (events : List AuditEvent) (rest : List Char) :
    decoded (events.flatMap AuditEvent.line ++ rest) =
      (decoded rest).map (events.map (fun e => Json.Value.obj e.record) ++ ·) := by
  induction events with
  | nil => simp
  | cons e events ih =>
      obtain ⟨cs, hcs⟩ := body_eq e
      have hloads := loads_body e
      have hprintable := printable_body e
      rw [hcs] at hloads hprintable
      rw [List.flatMap_cons, AuditEvent.line, hcs, List.append_assoc, List.append_assoc,
        List.singleton_append, decoded_line hprintable, hloads, ih]
      cases decoded rest <;> rfl

theorem decoded_whole (events : List AuditEvent) :
    decoded (events.flatMap AuditEvent.line) =
      some (events.map fun e => Json.Value.obj e.record) := by
  have := decoded_lines events []
  rwa [List.append_nil, decoded_nil, Option.map_some, List.append_nil] at this

/-! ## Torn lines -/

theorem length_line (e : AuditEvent) : e.line.length = e.body.length + 1 := by
  rw [AuditEvent.line, List.length_append, List.length_singleton]

/-- What a crash leaves of a line, unless it is nothing or the whole of it. -/
theorem take_line {e : AuditEvent} {k : ℕ} (hk : k ≠ 0) (hlt : k < e.line.length) :
    e.line.take k = e.body.take k ∧ ∃ cs, e.body.take k = '\x7b' :: cs := by
  obtain ⟨cs, hcs⟩ := body_eq e
  obtain ⟨n, rfl⟩ := Nat.exists_eq_succ_of_ne_zero hk
  rw [length_line] at hlt
  rw [AuditEvent.line, List.take_append_of_le_length (Nat.le_of_lt_succ hlt), hcs, List.take_succ_cons]
  exact ⟨rfl, _, rfl⟩

/-- The event that is appended behind a torn line makes one line with it that does not decode. -/
theorem decoded_torn {last : AuditEvent} {k : ℕ} (hk : k ≠ 0) (hlt : k < last.line.length)
    (e : AuditEvent) (rest : List Char) : decoded (last.line.take k ++ (e.line ++ rest)) = none := by
  obtain ⟨htake, cs, hcs⟩ := take_line hk hlt
  have hlost : Json.loads (last.body.take k ++ e.body) = none :=
    last.toRecord.loads_take_append Json.compact_readable e.toRecord hk
  have hprintable : ∀ c ∈ last.body.take k ++ e.body, Json.printable c := by
    intro c hc
    rcases List.mem_append.mp hc with hc | hc
    · exact printable_body last c (List.mem_of_mem_take hc)
    · exact printable_body e c hc
  rw [hcs, List.cons_append] at hlost hprintable
  have hline := decoded_line hprintable rest
  rw [hlost, Option.bind_none, ← List.cons_append, ← hcs] at hline
  rw [htake, AuditEvent.line, ← hline]
  simp

/-- A torn line at the end decodes when only its line feed is missing. -/
theorem decoded_torn_last {last : AuditEvent} {k : ℕ} (hk : k ≠ 0) (hlt : k < last.line.length) :
    decoded (last.line.take k) = if k < last.body.length then none else some [.obj last.record] := by
  obtain ⟨htake, cs, hcs⟩ := take_line hk hlt
  have hprintable : ∀ c ∈ last.body.take k, Json.printable c := fun c hc =>
    printable_body last c (List.mem_of_mem_take hc)
  have hloads : Json.loads (last.body.take k) =
      if k < last.body.length then none else some (.obj last.record) := by
    split
    · rename_i hshort
      exact last.toRecord.loads_take Json.compact_readable hshort
    · rename_i hlong
      rw [List.take_of_length_le (not_lt.mp hlong), loads_body]
  rw [hcs] at hloads hprintable
  rw [htake, hcs, decoded_last hprintable, hloads]
  split <;> rfl

/-- All events are read back exactly when the crash has left no part of a line, or there are no other
events and the part is no whole record. -/
theorem readable_iff (before : List AuditEvent) (last : AuditEvent) (k : ℕ)
    (after : List AuditEvent) :
    Readable before last k after ↔
      k = 0 ∨ last.line.length ≤ k ∨ before = [] ∧ after = [] ∧ k < last.body.length := by
  have hcontent : after.foldl writeRecord (crashed before last k) =
      before.flatMap AuditEvent.line ++ (last.line.take k ++ after.flatMap AuditEvent.line) := by
    rw [foldl_writeRecord, crashed, foldl_writeRecord, List.nil_append, List.append_assoc]
  rw [Readable, hcontent]
  simp only [count, readAll_some, decoded_lines]
  by_cases hle : last.line.length ≤ k
  · refine iff_of_true ?_ (.inr (.inl hle))
    have hlines : last.line ++ after.flatMap AuditEvent.line =
        (last :: after).flatMap AuditEvent.line := rfl
    rw [completed, if_pos hle, List.take_of_length_le hle, hlines, decoded_whole]
    simp
  · rw [completed, if_neg hle]
    by_cases hk : k = 0
    · refine iff_of_true ?_ (.inl hk)
      rw [hk, List.take_zero, List.nil_append, decoded_whole]
      simp
    · have hlt := Nat.not_le.mp hle
      cases after with
      | nil =>
          rw [List.append_nil, List.flatMap_nil, List.append_nil, decoded_torn_last hk hlt]
          by_cases hshort : k < last.body.length
          · rw [if_pos hshort]
            simp +contextual [hk, hle, hshort]
          · rw [if_neg hshort]
            simp [hk, hle, hshort]
      | cons e after =>
          rw [List.flatMap_cons, decoded_torn hk hlt]
          simp [hk, hle]

end

section Sample

/-- Floats are read as they are written. -/
local instance sampleFloats : Json.FloatReader where
  read := .float

def sampleEvent (event : String) : AuditEvent where
  ts := "2026-10-01T00:00:00+00:00"
  event
  actor := "orch-1"
  distinct := .nil
  readable := List.forall_mem_nil _

/-- The second of two events is cut short: the first one is not read back. -/
theorem not_readable_torn :
    ¬Readable [sampleEvent "worker.dispatched"] (sampleEvent "worker.done") 12 [] := by
  intro h
  exact absurd h.2 (by decide +kernel)

end Sample

end Perpetua.Session
